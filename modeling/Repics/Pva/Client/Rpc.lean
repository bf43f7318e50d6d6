import Repics.Pva.Client.Flavours
import Repics.Pva.Server.Rpc

/-!
# Calling

`rpc` of the blocking and of the asyncio context, from the `Value` that is the
argument to what is returned or raised.  In between are the library, which is
a parameter, the served PV with its handler, and the unwrapper of the context.
A reply without a value is `None` for the client, and the unwrapper asks every
reply for its structure id.
-/

namespace Repics.Pva.Client

open Repics.Pva.Server

/-- What the library makes of a call, with its pvRequest, and of the reply. -/
structure Wire where
  request : Option String → FieldDesc → PvField → FieldDesc × PvField
  reply : Except OpError RpcReply → Except RsPvaError RpcReply

/-- Values, empty replies and errors arrive as they were sent; `shown` is how
the text of an error is shown. -/
structure Wire.Faithful (wire : Wire) (shown : Str → String) : Prop where
  value : ∀ desc value,
    wire.reply (.ok (.value desc value)) = .ok (.value desc value)
  empty : wire.reply (.ok .empty) = .ok .empty
  error : ∀ error : OpError,
    wire.reply (.error error) = .error (.remoteError (shown error.text))

/-- `RpcReply::into_value` -/
def intoValue : RpcReply → Option (FieldDesc × PvField)
  | .value desc value => some (desc, value)
  | .empty => none

structure RpcArgs where
  name : String
  value : Root × Str
  request : Option String
  throw : Bool

namespace RpcArgs

variable (parses : String → Bool) (wire : Wire) (service : RpcService)
  (args : RpcArgs)

/-- The checks before anything is sent. -/
def checked : Except Exc (FieldDesc × PvField) :=
  match args.value.1.snapshot args.value.2 with
  | .error _ => .error (.other "TypeError")
  | .ok (desc, field, _) =>
      match parseRequest parses args.request with
      | .error exc => .error exc
      | .ok _ => .ok (desc, field)

/-- A call that is sent: of a root, with a request that can be parsed. -/
structure Sent : Prop where
  root : args.value.2 = []
  parsed : args.request.all parses = true

/-- `do_rpc`; `none` is Python's `None`. -/
def doRpc (desc : FieldDesc) (field : PvField) :
    Except PvaError (Option Root) :=
  let (desc, field) := wire.request args.request desc field
  match wire.reply (service.rpc desc field) with
  | .error error => .error (mapPva error)
  | .ok reply =>
      .ok ((intoValue reply).map fun (desc, value) => ⟨desc, value, ∅⟩)

/-- What the operation of the call is answered. -/
def answer : Option OpReply :=
  let (desc, field) := wire.request args.request
    args.value.1.desc args.value.1.field
  service.answer desc field

end RpcArgs

/-- What the helpers know of Python objects: `None`, a `Value`, and what
`named` makes of an object. -/
structure Objects (Obj : Type) where
  none : Obj
  value : Root → Obj
  named : String → Obj → Obj

/-- The `unwrap` of an entry of the table. -/
abbrev Helper (Obj : Type) := Root → Except Exc Obj

/-- The unwrapper of a context between two calls, with its table.  It serves
values of the id it keeps with the helper for that id. -/
structure Unwrapper (Obj : Type) where
  nt : Str → Option (Helper Obj)
  id : Option Str
  method : Option (Helper Obj)
  own : ∀ served, id = some served → method = nt served

/-- `Value.getID` -/
def getID (root : Root) : Except Exc Str :=
  match root.desc with
  | .struct structId _ => .ok structId
  | _ => .error (.other "TypeError")

namespace Unwrapper

variable {Obj : Type} (objects : Objects Obj) (unwrapper : Unwrapper Obj)

/-- A new unwrapper over a table. -/
def new (nt : Str → Option (Helper Obj)) : Unwrapper Obj where
  nt := nt
  id := none
  method := none
  own := nofun

/-- `_update`, unless the id is the one that was served last. -/
def serve (served : Str) : Unwrapper Obj :=
  if unwrapper.id = some served then unwrapper
  else
    { unwrapper with
      id := some served
      method := unwrapper.nt served
      own := by
        intro other same
        rw [Option.some.inj same] }

/-- Without a helper the value itself is given back. -/
def helped (helper : Option (Helper Obj)) (root : Root) : Except Exc Obj :=
  match helper with
  | none => .ok (objects.value root)
  | some unwrap => unwrap root

/-- `ClientUnwrapper.unwrap`; `None` has no `getID`. -/
def unwrap (V : Option Root) : Except Exc Obj × Unwrapper Obj :=
  match V with
  | none => (.error (.other "AttributeError"), unwrapper)
  | some root =>
      match getID root with
      | .error exc => (.error exc, unwrapper)
      | .ok served =>
          let next := unwrapper.serve served
          (helped objects next.method root, next)

/-- `Wrapping.unwrap` -/
def unwrapNamed (V : Option Root) (name : String) :
    Except Exc Obj × Unwrapper Obj :=
  let (out, next) := unwrapper.unwrap objects V
  (out.map (objects.named name), next)

end Unwrapper

/-- `_one` -/
def oneOf {Obj : Type} (throw : Bool) (result : Except Exc Obj) :
    Except Exc (Reply Obj) :=
  match result with
  | .ok value => .ok (.ok value)
  | .error (.pva error) =>
      if throw then .error (.pva error) else .ok (.error error)
  | .error exc => .error exc

namespace RpcArgs

variable {Obj : Type} (parses : String → Bool) (wire : Wire)
  (service : RpcService) (objects : Objects Obj) (unwrapper : Unwrapper Obj)
  (args : RpcArgs)

/-- `PvaContext.rpc` -/
def raw : Except Exc (Option Root) :=
  match args.checked parses with
  | .error exc => .error exc
  | .ok (desc, field) =>
      match args.doRpc wire service desc field with
      | .error error => .error (.pva error)
      | .ok V => .ok V

/-- `PvaContext.rpc_async`: the awaitable, by what awaiting it gives. -/
def rawAsync : Except Exc (Except PvaError (Option Root)) :=
  match args.checked parses with
  | .error exc => .error exc
  | .ok (desc, field) => .ok (args.doRpc wire service desc field)

/-- `Context.rpc` of the blocking flavour. -/
def blocking : Except Exc (Reply Obj) × Unwrapper Obj :=
  match args.raw parses wire service with
  | .error exc => (oneOf args.throw (.error exc), unwrapper)
  | .ok V =>
      let (out, next) := unwrapper.unwrapNamed objects V args.name
      (oneOf args.throw out, next)

/-- `Context.rpc` of the asyncio flavour. -/
def asyncio : Except Exc (Reply Obj) × Unwrapper Obj :=
  match args.rawAsync parses wire service with
  | .error exc => (oneOf args.throw (.error exc), unwrapper)
  | .ok (.error error) => (oneOf args.throw (.error (.pva error)), unwrapper)
  | .ok (.ok V) =>
      let (out, next) := unwrapper.unwrapNamed objects V args.name
      (oneOf args.throw out, next)

def run (flavour : Flavour) : Except Exc (Reply Obj) × Unwrapper Obj :=
  match flavour with
  | .threads => args.blocking parses wire service objects unwrapper
  | .asyncio => args.asyncio parses wire service objects unwrapper

theorem run_eq (flavour : Flavour) :
    args.run parses wire service objects unwrapper flavour =
      args.blocking parses wire service objects unwrapper := by
  cases flavour with
  | threads => rfl
  | asyncio =>
      simp only [run, asyncio, blocking, rawAsync, raw]
      cases args.checked parses with
      | error exc => rfl
      | ok parts =>
          obtain ⟨desc, field⟩ := parts
          simp only
          cases args.doRpc wire service desc field with
          | error error => rfl
          | ok V => rfl

end RpcArgs

section Answered

variable {Obj : Type} (objects : Objects Obj)
  (nt : Str → Option (Helper Obj))

/-- The unwrapped form of a value: what the helper for its id makes of it, or
the value itself when there is none. -/
def unwrapped (root : Root) : Except Exc Obj :=
  match getID root with
  | .ok structId => Unwrapper.helped objects (nt structId) root
  | .error _ => .ok (objects.value root)

/-- A `PvaRemoteError` is raised or, without `throw`, returned. -/
def Remote (throw : Bool) (text : String) (result : Except Exc (Reply Obj)) :
    Prop :=
  result =
    if throw then .error (.pva ⟨.remote, text⟩)
    else .ok (.error ⟨.remote, text⟩)

/-- The result of a call is what was answered. -/
def Answered (shown : Str → String) (args : RpcArgs)
    (result : Except Exc (Reply Obj)) : Option OpReply → Prop
  | some (.ok (some (desc, value))) =>
      ∃ out, unwrapped objects nt ⟨desc, value, ∅⟩ = .ok out ∧
        result = .ok (.ok (objects.named args.name out))
  | some (.ok none) => result = .ok (.ok objects.none)
  | some (.error msg) => Remote args.throw (shown msg) result
  | none => Remote args.throw (shown dropped) result

/-- The helper that is registered for the id of the value, if any, does not
raise on it. -/
def Helped (structId : Str) (root : Root) : Prop :=
  ∀ helper, nt structId = some helper → ∃ out, helper root = .ok out

/-- An answer that the unwrapper can take: an error, or a structure that its
helper unwraps. -/
def Unwrappable : Option OpReply → Prop
  | some (.ok (some (desc, value))) =>
      ∃ structId members, desc = .struct structId members ∧
        Helped nt structId ⟨desc, value, ∅⟩
  | some (.ok none) => False
  | some (.error _) => True
  | none => True

end Answered

section Calls

variable {Obj : Type} {objects : Objects Obj}

theorem getID_ok_iff {root : Root} {structId : Str} :
    getID root = .ok structId ↔
      ∃ members, root.desc = .struct structId members := by
  simp only [getID]
  cases root.desc with
  | struct found members => simp
  | _ => simp

theorem helped_ok_iff {nt : Str → Option (Helper Obj)} {structId : Str}
    {root : Root} :
    (∃ out, Unwrapper.helped objects (nt structId) root = .ok out) ↔
      Helped nt structId root := by
  simp only [Unwrapper.helped, Helped]
  cases nt structId with
  | none => simp
  | some helper => simp

theorem helped_structure_iff {nt : Str → Option (Helper Obj)} {root : Root}
    {structId : Str} (found : getID root = .ok structId) :
    (∃ other members, root.desc = .struct other members ∧
        Helped nt other root) ↔ Helped nt structId root := by
  constructor
  · intro structure_
    obtain ⟨other, members, isStruct, helped⟩ := structure_
    rw [getID_ok_iff.mpr ⟨members, isStruct⟩] at found
    rw [← Except.ok.inj found]
    exact helped
  · intro helped
    obtain ⟨members, isStruct⟩ := getID_ok_iff.mp found
    exact ⟨structId, members, isStruct, helped⟩

namespace Unwrapper

/-- Whatever was served before, the helper for the id is used. -/
theorem serve_method (unwrapper : Unwrapper Obj) (served : Str) :
    (unwrapper.serve served).method = unwrapper.nt served := by
  simp only [serve]
  split
  case isTrue same => exact unwrapper.own served same
  case isFalse => rfl

theorem unwrap_structure (unwrapper : Unwrapper Obj) {root : Root}
    {structId : Str} (found : getID root = .ok structId) :
    (unwrapper.unwrap objects (some root)).1 =
      helped objects (unwrapper.nt structId) root := by
  simp only [unwrap, found, serve_method]

theorem unwrap_other (unwrapper : Unwrapper Obj) {root : Root} {exc : Exc}
    (refused : getID root = .error exc) :
    (unwrapper.unwrap objects (some root)).1 = .error exc := by
  simp only [unwrap, refused]

end Unwrapper

/-- `Value.getID` raises an exception that is not one of pvAccess. -/
theorem getID_error {root : Root} {exc : Exc}
    (refused : getID root = .error exc) : exc = .other "TypeError" := by
  simp only [getID] at refused
  split at refused
  · simp at refused
  · exact (Except.error.inj refused).symm

namespace RpcArgs

variable {parses : String → Bool} {wire : Wire} {service : RpcService}
  {shown : Str → String} {args : RpcArgs}

/-- What `PvaContext.rpc` makes of an answer. -/
def received (shown : Str → String) :
    Option OpReply → Except Exc (Option Root)
  | some (.ok (some (desc, value))) => .ok (some ⟨desc, value, ∅⟩)
  | some (.ok none) => .ok none
  | some (.error msg) => .error (.pva ⟨.remote, shown msg⟩)
  | none => .error (.pva ⟨.remote, shown dropped⟩)

theorem checked_sent (sent : args.Sent parses) :
    args.checked parses =
      .ok (args.value.1.desc, args.value.1.field) := by
  simp only [checked, Root.snapshot, if_pos sent.root, parseRequest,
    if_pos sent.parsed]

theorem raw_eq (faithful : wire.Faithful shown) (sent : args.Sent parses) :
    args.raw parses wire service =
      received shown (args.answer wire service) := by
  simp only [raw, checked_sent sent, doRpc, answer, RpcService.rpc_eq]
  generalize service.answer _ _ = answer
  cases answer with
  | none =>
      simp only [Slot.read, faithful.error, mapPva, received]
  | some reply =>
      cases reply with
      | error msg => simp only [Slot.read, faithful.error, mapPva, received]
      | ok value =>
          cases value with
          | none =>
              simp only [Slot.read, faithful.empty, intoValue, received,
                Option.map_none]
          | some parts =>
              simp only [Slot.read, faithful.value, intoValue, received,
                Option.map_some]

theorem blocking_remote {unwrapper : Unwrapper Obj} {text : String}
    (failed : args.raw parses wire service =
      .error (.pva ⟨.remote, text⟩)) :
    Remote args.throw text
      (args.blocking parses wire service objects unwrapper).1 := by
  simp only [blocking, failed, oneOf]
  exact rfl

theorem blocking_value {unwrapper : Unwrapper Obj} {V : Option Root}
    (replied : args.raw parses wire service = .ok V) :
    (args.blocking parses wire service objects unwrapper).1 =
      oneOf args.throw
        ((unwrapper.unwrap objects V).1.map (objects.named args.name)) := by
  simp only [blocking, replied, Unwrapper.unwrapNamed]

/-- A reply with a value is unwrapped exactly when the unwrapper takes it. -/
theorem value_answered_iff {unwrapper : Unwrapper Obj} (root : Root)
    (result : Except Exc (Reply Obj))
    (replied : result = oneOf args.throw
      ((unwrapper.unwrap objects (some root)).1.map
        (objects.named args.name))) :
    (∃ out, unwrapped objects unwrapper.nt root = .ok out ∧
        result = .ok (.ok (objects.named args.name out))) ↔
      ∃ structId members, root.desc = .struct structId members ∧
        Helped unwrapper.nt structId root := by
  cases found : getID root with
  | error exc =>
      rw [Unwrapper.unwrap_other unwrapper found,
        getID_error found] at replied
      constructor
      · intro answered
        obtain ⟨out, -, answered⟩ := answered
        rw [replied] at answered
        simp [Except.map, oneOf] at answered
      · intro takes
        obtain ⟨structId, members, isStruct, -⟩ := takes
        rw [getID_ok_iff.mpr ⟨members, isStruct⟩] at found
        simp at found
  | ok structId =>
      rw [Unwrapper.unwrap_structure unwrapper found] at replied
      rw [helped_structure_iff found, ← helped_ok_iff]
      simp only [unwrapped, found]
      constructor
      · intro answered
        obtain ⟨out, helped, -⟩ := answered
        exact ⟨out, helped⟩
      · intro helped
        obtain ⟨out, helped⟩ := helped
        refine ⟨out, helped, ?_⟩
        rw [replied, helped]
        rfl

end RpcArgs

end Calls

/-- A library that carries everything as it is. -/
def plainWire : Wire where
  request _ desc field := (desc, field)
  reply reply :=
    match reply with
    | .ok reply => .ok reply
    | .error error => .error (.remoteError (String.ofList error.text))

theorem plainWire_faithful : plainWire.Faithful String.ofList where
  value _ _ := rfl
  empty := rfl
  error _ := rfl

/-- The objects are `None` and values. -/
def plainObjects : Objects (Option Root) where
  none := none
  value root := some root
  named _ obj := obj

def emptyRoot : Root :=
  ⟨.struct [] [], .struct [] [], ∅⟩

/-- A handler that calls `done` with this value, or without one. -/
def answering (value : Option Root) : RpcService where
  numbering := ⟨fun _ => 1, fun _ _ => none⟩
  flavour := .threads
  receive _ :=
    .handler
      ⟨[⟨value.map fun root => (root, []), none⟩], .returned none, []⟩

def plainCall : RpcArgs :=
  ⟨"pv", (emptyRoot, []), none, false⟩

theorem plainCall_sent : plainCall.Sent fun _ => true :=
  ⟨rfl, rfl⟩

end Repics.Pva.Client
