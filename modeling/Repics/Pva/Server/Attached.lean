import Mathlib.Data.List.Perm.Subperm
import Mathlib.Logic.Function.Basic
import Repics.Lib.Transition

/-!
# Channels that are attached to PVs

A channel that opens is charged to the PV that is listed under its name, if
there is one, and the PV goes to the end of the queue of that name.  A channel
that closes takes a PV from the front of the queue, without a look at what its
own open found.  The library counts the channels of a PV and raises an edge
when the count leaves zero and when it comes back.

For the record, `channels` are the open channels with the PV their open found,
and `due` the edges that these channels call for.  A name that no PV can have,
because it is not a text, is one that is never listed.
-/

namespace Repics.Pva.Server

inductive ConnectEdge (Pv : Type) where
  | first (pv : Pv)
  | last (pv : Pv)

structure Channel (Name Pv : Type) where
  name : Name
  found : Option Pv

/-- `attached` lists the queues of all names; the queue of a name is what is
listed with it, in this order. -/
structure PySource (Name Pv : Type) where
  entries : Name → Option Pv
  attached : List (Name × Pv)
  counts : Pv → Int
  edges : List (ConnectEdge Pv)
  channels : List (Channel Name Pv)
  due : List (ConnectEdge Pv)

namespace PySource

variable {Name Pv : Type} [DecidableEq Name] [DecidableEq Pv]

/-- The front of the queue of a name, and what is left. -/
def popFront (name : Name) :
    List (Name × Pv) → Option Pv × List (Name × Pv)
  | [] => (none, [])
  | row :: rows =>
      if row.1 = name then (some row.2, rows)
      else ((popFront name rows).1, row :: (popFront name rows).2)

section Steps

variable (source : PySource Name Pv)

/-- The open channels whose open found the PV. -/
def holders (pv : Pv) : Nat :=
  source.channels.countP fun channel => channel.found = some pv

/-- The library attaches a channel to the PV. -/
def attachChannel (pv : Pv) : PySource Name Pv :=
  { source with
    counts := Function.update source.counts pv (source.counts pv + 1)
    edges := if source.counts pv = 0 then source.edges ++ [.first pv]
      else source.edges }

def detachChannel (pv : Pv) : PySource Name Pv :=
  { source with
    counts := Function.update source.counts pv (source.counts pv - 1)
    edges := if source.counts pv = 1 then source.edges ++ [.last pv]
      else source.edges }

def notifyChannelOpen (name : Name) : PySource Name Pv :=
  match source.entries name with
  | some pv => attachChannel
      { source with attached := source.attached ++ [(name, pv)] } pv
  | none => source

def notifyChannelClose (name : Name) : PySource Name Pv :=
  match popFront name source.attached with
  | (some pv, attached) =>
      detachChannel { source with attached := attached } pv
  | (none, _) => source

inductive Step (Name Pv : Type) where
  | add (name : Name) (pv : Pv)
  | remove (name : Name)
  | opens (name : Name)
  | closes (index : Nat)

/-- The channel that opens is put on record. -/
def opened (name : Name) : PySource Name Pv :=
  { source with
    channels := source.channels ++ [⟨name, source.entries name⟩]
    due := match source.entries name with
      | some pv => if source.holders pv = 0 then source.due ++ [.first pv]
          else source.due
      | none => source.due }

/-- The channel that closes is taken off the record. -/
def closed (index : Nat) (channel : Channel Name Pv) : PySource Name Pv :=
  { source with
    channels := source.channels.eraseIdx index
    due := match channel.found with
      | some pv => if source.holders pv = 1 then source.due ++ [.last pv]
          else source.due
      | none => source.due }

/-- `add` refuses a name that is listed already. -/
def next : Step Name Pv → Option (PySource Name Pv)
  | .add name pv => some
      (if (source.entries name).isSome then source
      else { source with
        entries := Function.update source.entries name (some pv) })
  | .remove name => some { source with
      entries := Function.update source.entries name none }
  | .opens name => some ((source.opened name).notifyChannelOpen name)
  | .closes index =>
      (source.channels[index]?).map fun channel =>
        (source.closed index channel).notifyChannelClose channel.name

end Steps

def empty : PySource Name Pv where
  entries _ := none
  attached := []
  counts _ := 0
  edges := []
  channels := []
  due := []

/-- A PV is not added under a name while another PV has channels under it. -/
def Unambiguous (source : PySource Name Pv) : Step Name Pv → Prop
  | .add name pv => ∀ channel ∈ source.channels, channel.name = name →
      ∀ other, channel.found = some other → other = pv
  | _ => True

def system : Transition (PySource Name Pv) (Step Name Pv) :=
  (Transition.ofPartial (fun source => source = empty) next).restrict
    Unambiguous

/-- The library counts the channels whose open found the PV, its edges are
those that are due, and without channels nothing is attached. -/
structure Balanced (source : PySource Name Pv) : Prop where
  counts : ∀ pv, source.counts pv = source.holders pv
  edges : source.edges = source.due
  attached : source.channels = [] → source.attached = []

/-- A channel whose open found no PV closes while nothing is attached under
its name. -/
def OwnCharge (source : PySource Name Pv) : Step Name Pv → Prop
  | .closes index => ∀ channel, source.channels[index]? = some channel →
      channel.found = none → ∀ pv, (channel.name, pv) ∉ source.attached
  | _ => True

omit [DecidableEq Pv] in
theorem popFront_some {name : Name} {rows rest : List (Name × Pv)} {pv : Pv}
    (popped : popFront name rows = (some pv, rest)) :
    rows.Perm ((name, pv) :: rest) := by
  induction rows generalizing rest with
  | nil => simp [popFront] at popped
  | cons row rows induction =>
      rw [popFront] at popped
      split at popped
      case isTrue same =>
        obtain ⟨value, rfl⟩ := Prod.mk.inj popped
        obtain rfl := Option.some.inj value
        rw [← same]
      case isFalse =>
        obtain ⟨value, rfl⟩ := Prod.mk.inj popped
        have inner := induction (Prod.ext value rfl)
        exact (inner.cons row).trans (List.Perm.swap _ _ _)

omit [DecidableEq Pv] in
theorem popFront_none {name : Name} {rows rest : List (Name × Pv)}
    (popped : popFront name rows = (none, rest)) :
    ∀ pv, (name, pv) ∉ rows := by
  induction rows generalizing rest with
  | nil => simp
  | cons row rows induction =>
      rw [popFront] at popped
      split at popped
      case isTrue => simp at popped
      case isFalse differ =>
        obtain ⟨value, _⟩ := Prod.mk.inj popped
        intro pv member
        rcases List.mem_cons.mp member with same | later
        · exact differ (same ▸ rfl)
        · exact induction (Prod.ext value rfl) pv later

/-- The names and PVs of the open channels whose open found a PV. -/
def charges (source : PySource Name Pv) : List (Name × Pv) :=
  source.channels.filterMap fun channel =>
    channel.found.map fun pv => (channel.name, pv)

omit [DecidableEq Name] in
theorem holders_eq (source : PySource Name Pv) (pv : Pv) :
    source.holders pv = source.charges.countP fun row => row.2 = pv := by
  rw [holders, charges, List.countP_filterMap]
  apply List.countP_congr
  intro channel _
  cases channel.found <;> simp

omit [DecidableEq Name] [DecidableEq Pv] in
theorem mem_charges {source : PySource Name Pv} {name : Name} {pv : Pv} :
    (name, pv) ∈ source.charges ↔ ∃ channel ∈ source.channels,
      channel.name = name ∧ channel.found = some pv := by
  rw [charges, List.mem_filterMap]
  constructor
  · intro there
    obtain ⟨channel, member, found⟩ := there
    obtain ⟨other, same, pair⟩ := Option.map_eq_some_iff.mp found
    obtain ⟨rfl, rfl⟩ := Prod.mk.inj pair
    exact ⟨channel, member, rfl, same⟩
  · intro there
    obtain ⟨channel, member, rfl, found⟩ := there
    exact ⟨channel, member, by rw [found]; rfl⟩

/-- What is known of every run: the counts are those of the attached table,
what is attached is charged, and all channels of a name that found a PV found
the same one, which is the one that is listed. -/
structure Charged (source : PySource Name Pv) : Prop where
  counts : ∀ pv, source.counts pv =
    (source.attached.countP fun row => row.2 = pv : Nat)
  held : source.attached.Subperm source.charges
  single : ∀ name pv other, (name, pv) ∈ source.charges →
    (name, other) ∈ source.charges → pv = other
  listed : ∀ name pv other, source.entries name = some pv →
    (name, other) ∈ source.charges → other = pv

/-- Everything that is charged is attached. -/
structure Settled (source : PySource Name Pv) : Prop where
  attached : source.attached.Perm source.charges
  edges : source.edges = source.due

variable {source : PySource Name Pv}

omit [DecidableEq Name] in
theorem attachChannel_counts (pv other : Pv) :
    (source.attachChannel pv).counts other =
      source.counts other + (if other = pv then 1 else 0) := by
  simp only [attachChannel, Function.update_apply]
  split
  case isTrue same => rw [same]
  case isFalse => simp

omit [DecidableEq Name] in
theorem detachChannel_counts (pv other : Pv) :
    (source.detachChannel pv).counts other =
      source.counts other - (if other = pv then 1 else 0) := by
  simp only [detachChannel, Function.update_apply]
  split
  case isTrue same => rw [same]
  case isFalse => simp

omit [DecidableEq Name] in
theorem Charged.settled_balanced (charged : source.Charged)
    (settled : source.Settled) : source.Balanced where
  counts pv := by
    rw [charged.counts, holders_eq, settled.attached.countP_eq]
  edges := settled.edges
  attached none_ := by
    have empty : source.charges = [] := by rw [charges, none_]; rfl
    exact (empty ▸ settled.attached).eq_nil

omit [DecidableEq Name] in
theorem charges_opened (source : PySource Name Pv) (name : Name) :
    (source.opened name).charges = source.charges ++
      (match source.entries name with
        | some pv => [(name, pv)]
        | none => []) := by
  rw [charges, opened, List.filterMap_append]
  congr 1
  cases source.entries name <;> rfl

theorem Charged.opens (charged : source.Charged) (name : Name) :
    ((source.opened name).notifyChannelOpen name).Charged := by
  have grows := charges_opened source name
  unfold notifyChannelOpen
  have entries : (source.opened name).entries = source.entries := rfl
  rw [entries]
  cases listed : source.entries name with
  | none =>
      rw [listed, List.append_nil] at grows
      refine ⟨charged.counts, ?_, ?_, ?_⟩
      · rw [grows]
        exact charged.held
      · rw [grows]
        exact charged.single
      · rw [grows]
        exact charged.listed
  | some pv =>
      rw [listed] at grows
      have known : ∀ other pv', (other, pv') ∈ source.charges ++
          [(name, pv)] → other = name → pv' = pv := by
        intro other pv' member same
        rcases List.mem_append.mp member with old | new
        · exact charged.listed name pv pv' listed (same ▸ old)
        · exact (Prod.mk.inj (List.mem_singleton.mp new)).2
      have old : ∀ other pv', (other, pv') ∈ source.charges ++
          [(name, pv)] → other ≠ name → (other, pv') ∈ source.charges := by
        intro other pv' member differ
        rcases List.mem_append.mp member with old | new
        · exact old
        · exact absurd (Prod.mk.inj (List.mem_singleton.mp new)).1 differ
      constructor
      · intro other
        rw [attachChannel_counts]
        change source.counts other + _ = ((source.attached ++
          [(name, pv)]).countP _ : Nat)
        rw [charged.counts, List.countP_append]
        by_cases same : other = pv
        · simp [same]
        · have differ : ¬pv = other := fun equal => same equal.symm
          simp [same, differ]
      · change (source.attached ++ [(name, pv)]).Subperm
          (source.opened name).charges
        rw [grows]
        exact (List.subperm_append_right _).mpr charged.held
      · change ∀ other first second,
          (other, first) ∈ (source.opened name).charges →
          (other, second) ∈ (source.opened name).charges → first = second
        rw [grows]
        intro other first second member member'
        by_cases same : other = name
        · rw [known other first member same, known other second member' same]
        · exact charged.single other first second (old _ _ member same)
            (old _ _ member' same)
      · change ∀ other first second, source.entries other = some first →
          (other, second) ∈ (source.opened name).charges → second = first
        rw [grows]
        intro other first second some_ member
        by_cases same : other = name
        · subst same
          obtain rfl := Option.some.inj (listed.symm.trans some_)
          exact known other second member rfl
        · exact charged.listed other first second some_
            (old _ _ member same)

omit [DecidableEq Name] in
theorem Settled.opens (charged : source.Charged) (settled : source.Settled)
    (name : Name) :
    ((source.opened name).notifyChannelOpen name).Settled := by
  have grows := charges_opened source name
  have balanced := charged.settled_balanced settled
  unfold notifyChannelOpen
  have entries : (source.opened name).entries = source.entries := rfl
  rw [entries]
  cases listed : source.entries name with
  | none =>
      rw [listed, List.append_nil] at grows
      refine ⟨?_, ?_⟩
      · rw [grows]
        exact settled.attached
      · simp only [opened, listed]
        exact settled.edges
  | some pv =>
      rw [listed] at grows
      refine ⟨?_, ?_⟩
      · change (source.attached ++ [(name, pv)]).Perm
          (source.opened name).charges
        rw [grows]
        exact settled.attached.append_right _
      · simp only [attachChannel, opened, listed, balanced.counts pv,
          settled.edges, Int.natCast_eq_zero]

omit [DecidableEq Name] in
theorem charges_closed {index : Nat} {channel : Channel Name Pv}
    (found : source.channels[index]? = some channel) :
    source.charges.Perm
      ((match channel.found with
        | some pv => [(channel.name, pv)]
        | none => []) ++ (source.closed index channel).charges) := by
  obtain ⟨bound, same⟩ := List.getElem?_eq_some_iff.mp found
  have perm := (List.getElem_cons_eraseIdx_perm bound).symm.filterMap
    fun channel => channel.found.map fun pv => (channel.name, pv)
  rw [same] at perm
  refine perm.trans (.of_eq ?_)
  cases held : channel.found with
  | none => simp [charges, closed, held]
  | some pv => simp [charges, closed, held]

/-- What closes either takes its own charge from the queue, or finds nothing
there, or takes what another channel left. -/
theorem close_cases (charged : source.Charged) {index : Nat}
    {channel : Channel Name Pv}
    (found : source.channels[index]? = some channel) :
    (∃ pv attached, popFront channel.name source.attached =
        (some pv, attached) ∧
      source.attached.Perm ((channel.name, pv) :: attached) ∧
      attached.Subperm (source.closed index channel).charges ∧
      (channel.found = some pv ∨ channel.found = none ∧
        (source.closed index channel).charges.Perm source.charges)) ∨
    (popFront channel.name source.attached).1 = none ∧
      (∀ pv, (channel.name, pv) ∉ source.attached) ∧
      source.attached.Subperm (source.closed index channel).charges := by
  have perm := charges_closed found
  cases popped : popFront channel.name source.attached with
  | mk front rest =>
      cases front with
      | none =>
          have outside := popFront_none popped
          refine .inr ⟨rfl, outside, ?_⟩
          cases held : channel.found with
          | none =>
              rw [held] at perm
              exact charged.held.trans perm.subperm
          | some pv =>
              rw [held] at perm
              have fewer :=
                (charged.held.trans perm.subperm).erase (channel.name, pv)
              rw [List.erase_of_not_mem (outside pv)] at fewer
              simpa using fewer
      | some pv =>
          have split := popFront_some popped
          refine .inl ⟨pv, rest, rfl, split, ?_⟩
          have inside : (channel.name, pv) ∈ source.charges :=
            charged.held.subset (split.mem_iff.mpr List.mem_cons_self)
          have held := split.symm.subperm.trans charged.held
          cases own : channel.found with
          | none =>
              rw [own] at perm
              refine ⟨?_, .inr ⟨rfl, perm.symm⟩⟩
              refine List.Subperm.trans ?_ (held.trans perm.subperm)
              exact (List.sublist_cons_self _ _).subperm
          | some other =>
              have member : (channel.name, other) ∈ source.charges :=
                mem_charges.mpr ⟨channel,
                  List.mem_of_getElem? found, rfl, own⟩
              obtain rfl := charged.single _ _ _ inside member
              rw [own] at perm
              refine ⟨?_, .inl rfl⟩
              exact (List.subperm_cons _).mp (held.trans perm.subperm)

omit [DecidableEq Name] in
theorem closed_subset {index : Nat} {channel : Channel Name Pv}
    (found : source.channels[index]? = some channel) :
    (source.closed index channel).charges ⊆ source.charges := by
  intro row member
  exact (charges_closed found).mem_iff.mpr
    (List.mem_append_right _ member)

theorem Charged.closes (charged : source.Charged) {index : Nat}
    {channel : Channel Name Pv}
    (found : source.channels[index]? = some channel) :
    ((source.closed index channel).notifyChannelClose
      channel.name).Charged := by
  have fewer := closed_subset found
  have single : ∀ name pv other,
      (name, pv) ∈ (source.closed index channel).charges →
      (name, other) ∈ (source.closed index channel).charges →
      pv = other :=
    fun name pv other member member' =>
      charged.single name pv other (fewer member) (fewer member')
  have listed : ∀ name pv other, source.entries name = some pv →
      (name, other) ∈ (source.closed index channel).charges →
      other = pv :=
    fun name pv other some_ member =>
      charged.listed name pv other some_ (fewer member)
  unfold notifyChannelClose
  have same : (source.closed index channel).attached = source.attached := rfl
  rw [same]
  rcases close_cases charged found with
    ⟨pv, rest, popped, split, held, _⟩ | ⟨popped, _, held⟩
  · rw [popped]
    refine ⟨?_, held, single, listed⟩
    intro other
    rw [detachChannel_counts]
    change source.counts other - _ = (rest.countP _ : Nat)
    rw [charged.counts, split.countP_eq, List.countP_cons]
    by_cases same : other = pv
    · simp [same]
    · have differ : ¬pv = other := fun equal => same equal.symm
      simp [same, differ]
  · rw [show popFront channel.name source.attached =
      (none, (popFront channel.name source.attached).2) from
        Prod.ext popped rfl]
    exact ⟨charged.counts, held, single, listed⟩

theorem Settled.closes (charged : source.Charged)
    (settled : source.Settled) {index : Nat} {channel : Channel Name Pv}
    (found : source.channels[index]? = some channel)
    (own : source.OwnCharge (.closes index)) :
    ((source.closed index channel).notifyChannelClose
      channel.name).Settled := by
  have perm := charges_closed found
  have balanced := charged.settled_balanced settled
  have same : (source.closed index channel).attached = source.attached := rfl
  unfold notifyChannelClose
  rw [same]
  rcases close_cases charged found with
    ⟨pv, rest, popped, split, _, mine | ⟨none_, _⟩⟩ | ⟨popped, outside, _⟩
  · rw [popped]
    rw [mine] at perm
    constructor
    · exact (split.symm.trans (settled.attached.trans perm)).cons_inv
    · have cast : ((source.holders pv : Int) = 1) =
          (source.holders pv = 1) := propext (by omega)
      simp only [detachChannel, closed, mine, balanced.counts pv,
        settled.edges, cast]
  · have member : (channel.name, pv) ∈ source.attached :=
      split.mem_iff.mpr List.mem_cons_self
    exact absurd member (own channel found none_ pv)
  · rw [show popFront channel.name source.attached =
      (none, (popFront channel.name source.attached).2) from
        Prod.ext popped rfl]
    cases held : channel.found with
    | none =>
        rw [held] at perm
        refine ⟨settled.attached.trans perm, ?_⟩
        simp only [closed, held]
        exact settled.edges
    | some pv =>
        have member : (channel.name, pv) ∈ source.charges :=
          mem_charges.mpr ⟨channel, List.mem_of_getElem? found, rfl, held⟩
        exact absurd (settled.attached.mem_iff.mpr member) (outside pv)

theorem Charged.step (charged : source.Charged)
    {label : Step Name Pv} {last : PySource Name Pv}
    (step : source.next label = some last)
    (unambiguous : source.Unambiguous label) : last.Charged := by
  cases label with
  | add name pv =>
      obtain rfl := Option.some.inj step
      split
      case isTrue => exact charged
      case isFalse =>
        refine ⟨charged.counts, charged.held, charged.single, ?_⟩
        intro other first second some_ member
        by_cases same : other = name
        · subst same
          simp only [Function.update_self, Option.some.injEq] at some_
          subst some_
          obtain ⟨channel, inside, isName, found⟩ := mem_charges.mp member
          exact unambiguous channel inside isName second found
        · simp only [Function.update_of_ne same] at some_
          exact charged.listed other first second some_ member
  | remove name =>
      obtain rfl := Option.some.inj step
      refine ⟨charged.counts, charged.held, charged.single, ?_⟩
      intro other first second some_ member
      by_cases same : other = name
      · subst same
        simp at some_
      · simp only [Function.update_of_ne same] at some_
        exact charged.listed other first second some_ member
  | opens name =>
      obtain rfl := Option.some.inj step
      exact charged.opens name
  | closes index =>
      obtain ⟨channel, found, rfl⟩ := Option.map_eq_some_iff.mp step
      exact charged.closes found

theorem charged_invariant :
    (system : Transition (PySource Name Pv) _).Invariant Charged where
  initial source start := by
    subst start
    refine ⟨fun _ => rfl, List.Subperm.refl _, ?_, ?_⟩
    · intro name pv other member
      exact absurd member List.not_mem_nil
    · intro name pv other some_
      simp [empty] at some_
  preserved source label last charged step := charged.step step.1 step.2

theorem settled_invariant :
    ((system : Transition (PySource Name Pv) _).restrict
      OwnCharge).Invariant fun source =>
        source.Charged ∧ source.Settled := by
  refine (charged_invariant.restrict OwnCharge).strengthen ?_ ?_
  · intro source start
    subst start
    exact ⟨.refl _, rfl⟩
  · intro source label last charged settled step
    obtain ⟨⟨step, _⟩, own⟩ := step
    cases label with
    | add name pv =>
        obtain rfl := Option.some.inj step
        split
        case isTrue => exact settled
        case isFalse => exact ⟨settled.attached, settled.edges⟩
    | remove name =>
        obtain rfl := Option.some.inj step
        exact ⟨settled.attached, settled.edges⟩
    | opens name =>
        obtain rfl := Option.some.inj step
        exact settled.opens charged name
    | closes index =>
        obtain ⟨channel, found, rfl⟩ := Option.map_eq_some_iff.mp step
        exact settled.closes charged found own

/-- The edges balance in every run in which a channel whose open found no PV
closes only while nothing is attached under its name.  A channel that closes
otherwise is charged to a PV that keeps all its channels. -/
theorem edges_balance_guards :
    (system : Transition (PySource Name Pv) (Step Name Pv)).Guards OwnCharge
      Balanced where
  enough source reachable := by
    obtain ⟨charged, settled⟩ := settled_invariant.reachable reachable
    exact charged.settled_balanced settled
  needed source label last reachable step other := by
    have charged := charged_invariant.reachable reachable
    cases label with
    | closes index =>
        apply Transition.Breakable.now
        obtain ⟨channel, found, rfl⟩ := Option.map_eq_some_iff.mp step.1
        intro balanced
        simp only [OwnCharge, not_forall, not_not] at other
        obtain ⟨channel', found', none_, pv, member⟩ := other
        obtain rfl := Option.some.inj (found.symm.trans found')
        rcases close_cases charged found with
          ⟨pv', rest, popped, split, _, mine | ⟨_, perm⟩⟩ |
            ⟨_, outside, _⟩
        · simp [none_] at mine
        · have counts := balanced.counts pv'
          have fewer := charged.held.countP_le fun row => row.2 = pv'
          have same : (source.closed index channel).attached =
            source.attached := rfl
          unfold notifyChannelClose at counts
          rw [same, popped] at counts
          simp only at counts
          rw [detachChannel_counts, if_pos rfl] at counts
          change source.counts pv' - 1 =
            ((source.closed index channel).holders pv' : Int) at counts
          rw [holders_eq, perm.countP_eq, charged.counts] at counts
          omega
        · exact outside pv member
    | _ => exact absurd trivial other

/-- A channel opens before its PV is added, another one after, and the first
one closes. -/
def early : List (Step Unit Unit) :=
  [.opens (), .add () (), .opens (), .closes 0]

/-- The last-disconnect edge is raised although a channel is open, and the
count of the PV is zero. -/
theorem edge_while_connected :
    ∃ source : PySource Unit Unit, system.Reachable source ∧
      source.counts () = 0 ∧ source.holders () = 1 ∧
      source.edges = [.first (), .last ()] ∧ source.due = [.first ()] ∧
      ¬source.Balanced := by
  have run : system.Run (empty : PySource Unit Unit) early
      ((early.foldlM next empty).get rfl) := by
    refine .restrict_cons rfl trivial (.restrict_cons rfl ?_
      (.restrict_cons rfl trivial (.restrict_cons rfl trivial (.nil _))))
    intro channel member _ other found
    exact Subsingleton.elim other ()
  refine ⟨_, ⟨empty, early, rfl, run⟩, rfl, rfl, rfl, rfl, ?_⟩
  intro balanced
  exact absurd (balanced.counts ()) (by decide)

end PySource

end Repics.Pva.Server
