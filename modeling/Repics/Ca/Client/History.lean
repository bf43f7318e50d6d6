import Repics.Ca.Client.Operations

/-!
# What the operations met

A task is explained by its own acts, each with the channel as it then was.
The channel is what the moves before made of it: of each kind the last one
counts.
-/

namespace Repics.Ca.Operations

variable {Double Put : Type}

/-- Whether the channel has a circuit after a move, for one about that. -/
def Move.circuit? (handle : Nat) : Move → Option (Option (Dbr × Nat))
  | .connected other dbr count =>
      if other = handle then some (some (dbr, count)) else none
  | .lost other => if other = handle then some none else none
  | .rights _ _ _ => none

def Move.rights? (handle : Nat) : Move → Option (Bool × Bool)
  | .rights other read write =>
      if other = handle then some (read, write) else none
  | _ => none

/-- What the last of the items that tell anything tells. -/
def lastOf {α β : Type} (told : α → Option β) (items : List α)
    (before : β) : β :=
  (items.filterMap told).getLast?.getD before

/-- What a channel is after some moves: of each kind the last one counts. -/
def Channel.after (channel : Channel) (handle : Nat) (moves : List Move) :
    Channel where
  native := lastOf (Move.circuit? handle) moves channel.native
  read := (lastOf (Move.rights? handle) moves (channel.read, channel.write)).1
  write := (lastOf (Move.rights? handle) moves (channel.read, channel.write)).2

/-- A channel after the moves among some labels. -/
def shown (channels : Channels) (handle : Nat)
    (labels : List (Move ⊕ Nat × Act Double)) : Channel :=
  (channels handle).after handle (labels.filterMap Sum.getLeft?)

theorem lastOf_append {α β : Type} (told : α → Option β)
    (items others : List α) (before : β) :
    lastOf told (items ++ others) before =
      lastOf told others (lastOf told items before) := by
  unfold lastOf
  rw [List.filterMap_append, List.getLast?_append]
  cases (others.filterMap told).getLast? with
  | none => rfl
  | some last => rfl

theorem Channel.after_append (channel : Channel) (handle : Nat)
    (moves others : List Move) :
    channel.after handle (moves ++ others) =
      (channel.after handle moves).after handle others := by
  simp only [Channel.after, lastOf_append]

theorem Channels.move_after (channels : Channels) (handle : Nat)
    (move : Move) :
    channels.move move handle = (channels handle).after handle [move] := by
  cases move with
  | connected other _ _ | lost other | rights other _ _ =>
      by_cases same : other = handle
      · subst same
        simp [Channels.move, Channel.after, lastOf, Move.circuit?,
          Move.rights?]
      · simp [Channels.move, Channel.after, lastOf, Move.circuit?,
          Move.rights?, same, Ne.symm same]

/-- The channels in a run are what their own moves make of them. -/
theorem after_shown (channels : Channels) (handle : Nat)
    (labels : List (Move ⊕ Nat × Act Double)) :
    SideBySide.after Channels.next channels labels handle =
      shown channels handle labels := by
  induction labels generalizing channels with
  | nil => rfl
  | cons label labels induction =>
      cases label with
      | inr act => exact induction channels
      | inl move =>
          have later := induction (channels.move move)
          unfold shown at later
          rw [Channels.move_after, ← Channel.after_append] at later
          exact later

/-- What a task met: its acts, each with its channel at that time. -/
abbrev History (Double : Type) := List (Act Double × Channel)

/-- What the task of an index, on the channel of a handle, met. -/
def history (channels : Channels) (index handle : Nat)
    (labels : List (Move ⊕ Nat × Act Double)) : History Double :=
  (SideBySide.met Channels.next index channels labels).map
    fun (act, channels) => (act, channels handle)

/-- What a task met is among the labels, and the channel was what the moves
before that had made of it. -/
theorem history_split {channels : Channels} {index handle : Nat}
    {labels : List (Move ⊕ Nat × Act Double)} {act : Act Double}
    {here : Channel} {earlier later : History Double}
    (split : history channels index handle labels =
      earlier ++ (act, here) :: later) :
    ∃ before rest, labels = before ++ .inr (index, act) :: rest ∧
      here = shown channels handle before ∧
      history channels index handle before = earlier := by
  obtain ⟨early, others, isMet, isEarly, isRest⟩ :=
    List.map_eq_append_iff.mp split
  obtain ⟨⟨own, others⟩, late, rfl, isOwn, -⟩ :=
    List.map_eq_cons_iff.mp isRest
  obtain ⟨rfl, rfl⟩ := Prod.mk.inj isOwn
  obtain ⟨before, rest, isLabels, isBefore, isHere⟩ :=
    SideBySide.met_split isMet
  refine ⟨before, rest, isLabels, ?_, ?_⟩
  · rw [isHere]
    exact after_shown channels handle before
  · unfold history
    rw [isBefore]
    exact isEarly

theorem history_here (channels : Channels) (index handle : Nat)
    (act : Act Double) (before rest : List (Move ⊕ Nat × Act Double)) :
    (act, shown channels handle before) ∈
      history channels index handle
        (before ++ .inr (index, act) :: rest) := by
  rw [← after_shown]
  exact List.mem_map_of_mem
    (SideBySide.met_here index channels act before rest)

/-- The request that an operation makes of its channel as it is. -/
inductive Request.Fits (channel : Channel) : Op Put → Request Put → Prop where
  | read {request : DbrRequest} {count : Int} {amount : ReqCount}
      {native : Dbr} {elementCount : Nat} :
      channel.native = some (native, elementCount) →
      @readCount RsCaError (.ok elementCount) count = .ok amount →
      Fits channel (.get request count)
        (.read ((baseOf request native).code + request.offset) amount)
  | write (value : Put) (wait : Bool) :
      Fits channel (.put value wait) (.write value wait)

/-- How a task comes to a stage before anything is issued.  The access gate
lets it pass on a channel with a circuit and the right that it needs. -/
inductive Way (op : Op Put) : History Double → Stage Double → Prop where
  | ready : Way op [] .ready
  | connecting {polled : Channel} : op = .connect ∨ polled.native = none →
      Way op [(.poll, polled)] .connecting
  | known {polled : Channel} : op ≠ .connect → polled.native.isSome →
      Way op [(.poll, polled)] .asking
  | joined {polled here : Channel} : op ≠ .connect → polled.native = none →
      here.native.isSome →
      Way op [(.poll, polled), (.joined, here)] .asking
  | allowed {history : History Double} {here : Channel} :
      Way op history .asking → here.native.isSome → here.allows op.kind →
      Way op (history ++ [(.informed, here)]) .allowed

/-- The stages that the timeout ends. -/
def Stage.Waits : Stage Double → Prop
  | .connecting | .asking | .handed => True
  | _ => False

def Stage.Ended : Stage Double → Prop
  | .ended _ => True
  | _ => False

theorem Stage.ne_ended {stage : Stage Double} (running : ¬ stage.Ended)
    (ended : Operations.Ended Double) : stage ≠ .ended ended := by
  intro same
  rw [same] at running
  exact running trivial

theorem Stage.Waits.running {stage : Stage Double} (waits : stage.Waits) :
    ¬ stage.Ended := by
  intro ended
  cases stage with
  | ended _ => exact waits
  | _ => exact ended

/-- What a task met, issued and was answered when it is at a stage.  An end is
explained: by a circuit, for a wait; by the answer to the request that was
issued when the access rights allowed it; by the rights; by a circuit that was
lost after the gate; by an error of the library before anything was issued; by
the timeout; or by a panic. -/
inductive Story (lib : Library Double) (name : String) (op : Op Put)
    (timeout : Option Double) :
    History Double → List (Request Put) → List (Answer Double) →
      Stage Double → Prop where
  | early {history : History Double} {stage : Stage Double} :
      Way op history stage → Story lib name op timeout history [] [] stage
  | connected {polled here : Channel} : op = .connect →
      here.native.isSome →
      Story lib name op timeout [(.poll, polled), (.joined, here)] [] []
        (.ended (.returned (.ok none)))
  | denied {history : History Double} {here : Channel} :
      Way op history .asking → here.native.isSome →
      here.allows op.kind = false →
      Story lib name op timeout (history ++ [(.informed, here)]) [] []
        (.ended (.returned (.error (lib.accessDenied op.kind))))
  | lost {history : History Double} {here : Channel} :
      Way op history .allowed → op.kind = .read → here.native = none →
      Story lib name op timeout (history ++ [(.issue, here)]) [] []
        (.ended (.returned (.error (lib.mapCa lib.unconnected))))
  | handed {history : History Double} {here : Channel}
      {request : Request Put} :
      Way op history .allowed → Request.Fits here op request →
      Story lib name op timeout (history ++ [(.issue, here)]) [request] []
        .handed
  | read {history : History Double} {here : Channel}
      {request : Request Put} (snap : RsSnapshot Double String) :
      Story lib name op timeout history [request] [] .handed →
      op.kind = .read →
      Story lib name op timeout
        (history ++ [(.answered (.ok (some snap)), here)]) [request]
        [.ok (some snap)]
        (.ended (.returned (.ok (some (Snapshot.fromRs name snap)))))
  | written {history : History Double} {here : Channel}
      {request : Request Put} :
      Story lib name op timeout history [request] [] .handed →
      op.kind = .write →
      Story lib name op timeout (history ++ [(.answered (.ok none), here)])
        [request] [.ok none] (.ended (.returned (.ok none)))
  | refused {history : History Double} {here : Channel}
      {request : Request Put} (error : RsCaError) :
      Story lib name op timeout history [request] [] .handed →
      Story lib name op timeout (history ++ [(.answered (.error error), here)])
        [request] [.error error]
        (.ended (.returned (.error (lib.mapCaOp error op.kind))))
  | failed {history : History Double} {here : Channel}
      {stage : Stage Double} (error : RsCaError) :
      Way op history stage → stage = .connecting ∨ stage = .asking →
      Story lib name op timeout (history ++ [(.failed error, here)]) [] []
        (.ended (.returned (.error (lib.mapCa error))))
  | expired {history : History Double} {here : Channel}
      {issued : List (Request Put)} {stage : Stage Double} {secs : Double} :
      Story lib name op timeout history issued [] stage → stage.Waits →
      timeout = some secs →
      Story lib name op timeout (history ++ [(.expire, here)]) issued []
        (.ended (.returned (.error (op.late lib name secs))))
  | panicked {history : History Double} {here : Channel}
      {issued : List (Request Put)} {stage : Stage Double} (text : String) :
      Story lib name op timeout history issued [] stage → ¬ stage.Ended →
      Story lib name op timeout (history ++ [(.panic text, here)]) issued []
        (.ended (.panicked text))

section Stories

variable {lib : Library Double} {name : String} {op : Op Put}
variable {timeout : Option Double} {history : History Double}
variable {issued : List (Request Put)} {answers : List (Answer Double)}
variable {stage : Stage Double}

/-- Only a wait for the connection never comes to the access gate. -/
theorem Way.gated (way : Way op history stage)
    (gate : stage = .asking ∨ stage = .allowed) : op ≠ .connect := by
  induction way with
  | ready | connecting _ => simp at gate
  | known other _ | joined other _ _ => exact other
  | allowed _ _ _ induction => exact induction (.inl rfl)

/-- The stages before a request is issued. -/
def Stage.Early : Stage Double → Prop
  | .ready | .connecting | .asking | .allowed => True
  | .handed | .ended _ => False

theorem Way.stage_early (way : Way op history stage) : stage.Early := by
  cases way
  all_goals trivial

theorem Story.way
    (story : Story lib name op timeout history issued answers stage)
    (early : stage.Early) :
    issued = [] ∧ answers = [] ∧ Way op history stage := by
  cases story with
  | early way => exact ⟨rfl, rfl, way⟩
  | _ => exact early.elim

theorem Story.requested
    (story : Story lib name op timeout history issued answers .handed) :
    ∃ request, issued = [request] ∧ answers = [] := by
  cases story with
  | early way => exact way.stage_early.elim
  | @handed _ _ request _ _ => exact ⟨request, rfl, rfl⟩

theorem Story.unanswered
    (story : Story lib name op timeout history issued answers stage)
    (running : ¬ stage.Ended) : answers = [] := by
  cases story with
  | early _ | handed _ _ => rfl
  | _ => exact (running trivial).elim

end Stories

namespace Task

variable {lib : Library Double} {task after : Task Double Put}
variable {channel : Channel} {history : History Double}

/-- A task is explained by what it met. -/
def Explained (lib : Library Double) (history : History Double)
    (task : Task Double Put) : Prop :=
  Story lib task.name task.op task.timeout history task.issued task.answers
    task.stage

/-- What an early task comes to is explained from nothing issued. -/
theorem Explained.go (explained : task.Explained lib history)
    (early : task.stage.Early) {longer : History Double}
    {stage : Stage Double}
    (story : Story lib task.name task.op task.timeout longer [] [] stage) :
    (task.go stage).Explained lib longer := by
  obtain ⟨issued, answers, -⟩ := explained.way early
  unfold Explained Task.go
  rw [issued, answers]
  exact story

theorem Explained.poll (explained : task.Explained lib history)
    (ready : task.stage = .ready) :
    (task.poll channel).Explained lib (history ++ [(.poll, channel)]) := by
  have early : task.stage.Early := by rw [ready]; trivial
  have way := (explained.way early).2.2
  rw [ready] at way
  cases way
  unfold Task.poll
  split
  case h_1 isOp =>
    exact explained.go early (.early (.connecting (.inl isOp)))
  case h_2 lost _ =>
    exact explained.go early (.early (.connecting (.inr lost)))
  case h_3 native isNative other =>
    have circuit : channel.native.isSome := by rw [isNative]; rfl
    exact explained.go early (.early (.known other circuit))

theorem Explained.join (explained : task.Explained lib history)
    (connecting : task.stage = .connecting)
    (circuit : channel.native.isSome) :
    task.join.Explained lib (history ++ [(.joined, channel)]) := by
  have early : task.stage.Early := by rw [connecting]; trivial
  have way := (explained.way early).2.2
  rw [connecting] at way
  cases way with
  | @connecting polled waits =>
      unfold Task.join
      split
      case h_1 isOp => exact explained.go early (.connected isOp circuit)
      case h_2 other =>
        have lost := waits.resolve_left other
        exact explained.go early (.early (.joined other lost circuit))

theorem Explained.gate (explained : task.Explained lib history)
    (asking : task.stage = .asking) (circuit : channel.native.isSome) :
    (task.gate lib channel).Explained lib
      (history ++ [(.informed, channel)]) := by
  have early : task.stage.Early := by rw [asking]; trivial
  have way := (explained.way early).2.2
  rw [asking] at way
  unfold Task.gate
  split
  case isTrue allowed =>
    exact explained.go early (.early (.allowed way circuit allowed))
  case isFalse denied =>
    have refused := Bool.eq_false_iff.mpr denied
    exact explained.go early (.denied way circuit refused)

theorem Explained.hand (explained : task.Explained lib history)
    (allowed : task.stage = .allowed) {request : Request Put}
    (fits : Request.Fits channel task.op request) :
    (task.hand request).Explained lib (history ++ [(.issue, channel)]) := by
  have early : task.stage.Early := by rw [allowed]; trivial
  obtain ⟨issued, answers, way⟩ := explained.way early
  rw [allowed] at way
  unfold Explained Task.hand
  rw [issued, answers]
  exact .handed way fits

theorem readCount_ok (elementCount : Nat) (count : Int) :
    ∃ amount, @readCount RsCaError (.ok elementCount) count = .ok amount := by
  unfold readCount
  split
  · exact ⟨_, rfl⟩
  · split
    · exact ⟨_, rfl⟩
    · exact ⟨_, rfl⟩

theorem Explained.issue (explained : task.Explained lib history)
    (allowed : task.stage = .allowed)
    (step : task.issue lib channel = some after) :
    after.Explained lib (history ++ [(.issue, channel)]) := by
  unfold Task.issue at step
  split at step
  case h_1 => simp at step
  case h_2 isOp lost =>
    obtain rfl := Option.some.inj step
    have early : task.stage.Early := by rw [allowed]; trivial
    have way := (explained.way early).2.2
    rw [allowed] at way
    exact explained.go early (.lost way (by rw [isOp]; rfl) lost)
  case h_3 request count native elementCount isOp isNative =>
    obtain ⟨amount, counted⟩ := readCount_ok elementCount count
    rw [counted] at step
    obtain rfl := Option.some.inj step
    apply explained.hand allowed
    rw [isOp]
    exact .read isNative counted
  case h_4 value wait isOp =>
    obtain rfl := Option.some.inj step
    apply explained.hand allowed
    rw [isOp]
    exact .write value wait

theorem Explained.answered {answer : Answer Double}
    (explained : task.Explained lib history) (handed : task.stage = .handed)
    (step : task.answered lib answer = some after) :
    after.Explained lib (history ++ [(.answered answer, channel)]) := by
  unfold Explained at explained
  rw [handed] at explained
  obtain ⟨request, issued, answers⟩ := explained.requested
  rw [issued, answers] at explained
  unfold Task.answered at step
  split at step
  case h_5 => simp at step
  all_goals
    rename_i isOp
    obtain rfl := Option.some.inj step
    unfold Explained take
    simp only
    rw [issued, answers]
  case h_1 => exact .read _ explained (by rw [isOp]; rfl)
  case h_2 => exact .written explained (by rw [isOp]; rfl)
  case h_3 error =>
    have refused := @Story.refused _ _ _ _ _ _ _ channel _ error explained
    rw [isOp] at refused ⊢
    exact refused
  case h_4 error =>
    have refused := @Story.refused _ _ _ _ _ _ _ channel _ error explained
    rw [isOp] at refused ⊢
    exact refused

theorem Explained.expire {secs : Double}
    (explained : task.Explained lib history) (waits : task.stage.Waits)
    (timely : task.timeout = some secs) :
    (task.finish (.error (task.op.late lib task.name secs))).Explained lib
      (history ++ [(.expire, channel)]) := by
  have answers := explained.unanswered waits.running
  unfold Explained at explained
  rw [answers] at explained
  unfold Explained finish Task.go
  simp only
  rw [answers]
  exact .expired explained waits timely

theorem Explained.panic (explained : task.Explained lib history)
    (running : ¬ task.stage.Ended) (text : String) :
    (task.go (.ended (.panicked text))).Explained lib
      (history ++ [(.panic text, channel)]) := by
  have answers := explained.unanswered running
  unfold Explained at explained
  rw [answers] at explained
  unfold Explained Task.go
  simp only
  rw [answers]
  exact .panicked text explained running

theorem Explained.act {act : Act Double} (explained : task.Explained lib history)
    (step : task.act lib channel act = some after) :
    after.Explained lib (history ++ [(act, channel)]) := by
  cases act with
  | poll =>
      simp only [Task.act] at step
      split at step
      case h_1 ready =>
        obtain rfl := Option.some.inj step
        exact explained.poll ready
      case h_2 => simp at step
  | joined =>
      simp only [Task.act] at step
      split at step
      case h_1 connecting isNative =>
        obtain rfl := Option.some.inj step
        exact explained.join connecting (by rw [isNative]; rfl)
      case h_2 => simp at step
  | informed =>
      simp only [Task.act] at step
      split at step
      case h_1 asking isNative =>
        obtain rfl := Option.some.inj step
        exact explained.gate asking (by rw [isNative]; rfl)
      case h_2 => simp at step
  | issue =>
      simp only [Task.act] at step
      split at step
      case h_1 allowed => exact explained.issue allowed step
      case h_2 => simp at step
  | answered answer =>
      simp only [Task.act] at step
      split at step
      case h_1 handed => exact explained.answered handed step
      case h_2 => simp at step
  | failed error =>
      simp only [Task.act] at step
      split at step
      case h_3 => simp at step
      case h_1 stage | h_2 stage =>
        obtain rfl := Option.some.inj step
        have early : task.stage.Early := by rw [stage]; trivial
        have way := (explained.way early).2.2
        rw [stage] at way
        exact explained.go early (.failed error way (by simp))
  | expire =>
      simp only [Task.act] at step
      split at step
      case h_4 => simp at step
      case h_1 secs stage timely | h_2 secs stage timely
          | h_3 secs stage timely =>
        obtain rfl := Option.some.inj step
        exact explained.expire (by rw [stage]; trivial) timely
  | panic text =>
      simp only [Task.act] at step
      split at step
      case h_1 => simp at step
      case h_2 running =>
        obtain rfl := Option.some.inj step
        refine explained.panic ?_ text
        intro ended
        cases stage : task.stage with
        | ended end_ => exact running end_ stage
        | _ => rw [stage] at ended; exact ended

end Task

namespace Call

variable {lib : Library Double} {call first last : Call Double Put}

theorem run_explained (begins : first.Begins) {labels : List (Label Double)}
    (run : (system lib).Run first labels last) {index : Nat}
    {task : Task Double Put} (found : last.tasks[index]? = some task) :
    task.Explained lib (history first.channels index task.channel
      (labels.filterMap Label.side?)) := by
  let holds (met : List (Act Double × Channels)) (task : Task Double Put) :=
    task.Explained lib
      (met.map fun (act, channels) => (act, channels task.channel))
  have kept : ∀ {met channels task act after}, holds met task →
      (side lib).act channels task act = some after →
        holds (met ++ [(act, channels)]) after := by
    intro met channels task act after explained acted
    have same : after.channel = task.channel :=
      congrArg (fun args => args.2.1) (Task.act_args acted)
    simp only [holds, List.map_append, same]
    exact explained.act acted
  have begun : ∀ task ∈ first.working.2, holds [] task := by
    intro task member
    simp only [holds, Task.Explained]
    rw [begins.ready task member, begins.issued task member,
      begins.answers task member]
    exact .early .ready
  exact @SideBySide.run_met _ _ _ _ _ holds kept _ _ _ (run_working run) begun
    _ _ found

end Call

section Gate

variable {lib : Library Double} {name : String} {op : Op Put}
variable {timeout : Option Double} {earlier : History Double}
variable {issued : List (Request Put)} {answers : List (Answer Double)}
variable {stage : Stage Double} {here : Channel}

theorem Way.passed (way : Way op earlier .allowed) :
    ∃ before gate, earlier = before ++ [(.informed, gate)] ∧
      gate.native.isSome ∧ gate.allows op.kind := by
  cases way with
  | @allowed before gate _ circuit allowed =>
      exact ⟨before, gate, rfl, circuit, allowed⟩

/-- Before anything is issued, only the access gate was passed. -/
theorem Way.met (way : Way op earlier stage) {act : Act Double}
    (member : (act, here) ∈ earlier) :
    act ≠ .issue ∧ (act = .informed → here.allows op.kind) := by
  induction way with
  | ready => simp at member
  | connecting _ | known _ _ =>
      obtain ⟨rfl, rfl⟩ := Prod.mk.inj (List.mem_singleton.mp member)
      simp
  | joined _ _ _ =>
      simp only [List.mem_cons, Prod.mk.injEq, List.not_mem_nil,
        or_false] at member
      rcases member with first | second
      · simp [first.1]
      · simp [second.1]
  | allowed _ _ allowed induction =>
      rcases List.mem_append.mp member with before | now
      · exact induction before
      · obtain ⟨rfl, rfl⟩ := Prod.mk.inj (List.mem_singleton.mp now)
        exact ⟨by simp, fun _ => allowed⟩

theorem mem_snoc {act last : Act Double} {there : Channel}
    (member : (act, here) ∈ earlier ++ [(last, there)]) :
    (act, here) ∈ earlier ∨ act = last ∧ here = there := by
  rcases List.mem_append.mp member with before | now
  · exact .inl before
  · exact .inr (Prod.mk.inj (List.mem_singleton.mp now))

/-- The access gate was passed and then the request issued, each on the
channel as it was at that time. -/
def Sent (op : Op Put) (history : History Double) (request : Request Put) :
    Prop :=
  ∃ before gate here after,
    history = before ++ (.informed, gate) :: (.issue, here) :: after ∧
      gate.native.isSome ∧ gate.allows op.kind ∧
      Request.Fits here op request

theorem Sent.append {request : Request Put} (sent : Sent op earlier request)
    (more : History Double) : Sent op (earlier ++ more) request := by
  obtain ⟨before, gate, here, after, rfl, passed⟩ := sent
  refine ⟨before, gate, here, after ++ more, ?_, passed⟩
  rw [List.append_assoc, List.cons_append, List.cons_append]

theorem Story.sent
    (story : Story lib name op timeout earlier issued answers stage)
    {request : Request Put} (member : request ∈ issued) :
    issued = [request] ∧ Sent op earlier request := by
  induction story with
  | early _ | connected _ _ | denied _ _ _ | lost _ _ _ | failed _ _ _ =>
      simp at member
  | handed way fits =>
      obtain rfl := List.mem_singleton.mp member
      obtain ⟨before, gate, rfl, circuit, allowed⟩ := way.passed
      refine ⟨rfl, before, gate, _, [], ?_, circuit, allowed, fits⟩
      rw [List.append_assoc]
      rfl
  | read _ _ _ induction | written _ _ induction | refused _ _ induction
      | expired _ _ _ induction | panicked _ _ _ induction =>
      obtain ⟨one, sent⟩ := induction member
      exact ⟨one, sent.append _⟩

theorem Story.issued_length
    (story : Story lib name op timeout earlier issued answers stage) :
    issued.length ≤ 1 := by
  cases issued with
  | nil => exact Nat.zero_le 1
  | cons request others =>
      rw [(story.sent List.mem_cons_self).1]
      exact Nat.le_refl 1

/-- What happened at the access gate: the task has the right, or it is at its
end with nothing issued. -/
theorem Story.at_gate
    (story : Story lib name op timeout earlier issued answers stage)
    (member : (.informed, here) ∈ earlier) :
    here.allows op.kind ∨ issued = [] ∧
      stage = .ended (.returned (.error (lib.accessDenied op.kind))) := by
  induction story with
  | early way => exact .inl ((way.met member).2 rfl)
  | connected _ _ => simp at member
  | denied way _ _ =>
      rcases mem_snoc member with before | now
      · exact .inl ((way.met before).2 rfl)
      · exact .inr ⟨rfl, rfl⟩
  | lost way _ _ | handed way _ | failed _ way _ =>
      rcases mem_snoc member with before | now
      · exact .inl ((way.met before).2 rfl)
      · simp at now
  | read _ _ _ induction | written _ _ induction | refused _ _ induction =>
      rcases mem_snoc member with before | now
      · exact .inl ((induction before).resolve_right (by simp))
      · simp at now
  | expired _ waits _ induction =>
      rcases mem_snoc member with before | now
      · have running := Stage.ne_ended waits.running
        exact .inl ((induction before).resolve_right fun denied =>
          running _ denied.2)
      · simp at now
  | panicked _ _ running induction =>
      rcases mem_snoc member with before | now
      · exact .inl ((induction before).resolve_right fun denied =>
          Stage.ne_ended running _ denied.2)
      · simp at now

/-- What happened when a task went on after the gate: its request was issued,
or its circuit had been lost, which only a read notices. -/
theorem Story.at_issue
    (story : Story lib name op timeout earlier issued answers stage)
    (member : (.issue, here) ∈ earlier) :
    (∃ request, Request.Fits here op request ∧ issued = [request]) ∨
      op.kind = .read ∧ here.native = none ∧ issued = [] ∧
      stage = .ended (.returned (.error (lib.mapCa lib.unconnected))) := by
  induction story with
  | early way => exact ((way.met member).1 rfl).elim
  | connected _ _ => simp at member
  | denied way _ _ | failed _ way _ =>
      rcases mem_snoc member with before | now
      · exact ((way.met before).1 rfl).elim
      · simp at now
  | lost way isRead circuit =>
      rcases mem_snoc member with before | now
      · exact ((way.met before).1 rfl).elim
      · rw [now.2]
        exact .inr ⟨isRead, circuit, rfl, rfl⟩
  | handed way fits =>
      rcases mem_snoc member with before | now
      · exact ((way.met before).1 rfl).elim
      · rw [now.2]
        exact .inl ⟨_, fits, rfl⟩
  | read _ _ _ induction | written _ _ induction | refused _ _ induction =>
      rcases mem_snoc member with before | now
      · exact .inl ((induction before).resolve_right (by simp))
      · simp at now
  | expired _ waits _ induction =>
      rcases mem_snoc member with before | now
      · have running := Stage.ne_ended waits.running
        exact .inl ((induction before).resolve_right fun lost =>
          running _ lost.2.2.2)
      · simp at now
  | panicked _ _ running induction =>
      rcases mem_snoc member with before | now
      · exact .inl ((induction before).resolve_right fun lost =>
          Stage.ne_ended running _ lost.2.2.2)
      · simp at now

end Gate

/-- What an operation does at the access gate, among the labels of a run.  A
request is issued after the task asked for the rights while its channel had a
circuit and the right, and it is the one for the channel as it was when it was
issued.  A task that had not the right is at its end with nothing issued. -/
structure Gated (lib : Library Double) (channels : Channels) (index : Nat)
    (labels : List (Move ⊕ Nat × Act Double)) (task : Task Double Put) :
    Prop where
  sent : ∀ request ∈ task.issued, task.issued = [request] ∧
    ∃ before between after,
      labels = before ++ .inr (index, .informed) :: between ++
        .inr (index, .issue) :: after ∧
      (shown channels task.channel before).native.isSome ∧
      (shown channels task.channel before).allows task.op.kind ∧
      Request.Fits (shown channels task.channel
        (before ++ .inr (index, .informed) :: between)) task.op request
  issued : ∀ before after, labels = before ++ .inr (index, .issue) :: after →
    (∃ request, task.issued = [request] ∧
      Request.Fits (shown channels task.channel before) task.op request) ∨
    task.op.kind = .read ∧
      (shown channels task.channel before).native = none ∧
      task.issued = [] ∧
      task.stage = .ended (.returned (.error (lib.mapCa lib.unconnected)))
  denied : ∀ before after,
    labels = before ++ .inr (index, .informed) :: after →
    (shown channels task.channel before).allows task.op.kind = false →
    task.issued = [] ∧ task.stage =
      .ended (.returned (.error (lib.accessDenied task.op.kind)))

theorem Task.Explained.gated {lib : Library Double} {channels : Channels}
    {index : Nat} {labels : List (Move ⊕ Nat × Act Double)}
    {task : Task Double Put}
    (explained : task.Explained lib
      (history channels index task.channel labels)) :
    Gated lib channels index labels task := by
  constructor
  case sent =>
    intro request member
    obtain ⟨one, before, gate, here, after, split, circuit, allowed, fits⟩ :=
      explained.sent member
    have issueSplit : history channels index task.channel labels =
        (before ++ [(.informed, gate)]) ++ (.issue, here) :: after := by
      rw [split, List.append_assoc]
      rfl
    obtain ⟨all, rest, rfl, isHere, isAll⟩ := history_split issueSplit
    obtain ⟨first, between, rfl, isGate, -⟩ := history_split isAll
    rw [isGate] at circuit allowed
    rw [isHere] at fits
    exact ⟨one, first, between, rest, rfl, circuit, allowed, fits⟩
  case issued =>
    intro before after split
    subst split
    have member := history_here channels index task.channel .issue before after
    rcases explained.at_issue member with sent | lost
    · obtain ⟨request, fits, issued⟩ := sent
      exact .inl ⟨request, issued, fits⟩
    · exact .inr lost
  case denied =>
    intro before after split denied
    subst split
    have member :=
      history_here channels index task.channel .informed before after
    exact (explained.at_gate member).resolve_left (by rw [denied]; simp)

/-- **No request without a circuit and the right.** -/
theorem Call.requests_pass_gate {lib : Library Double}
    {first last : Call Double Put} (begins : first.Begins)
    {labels : List (Label Double)}
    (run : (Call.system lib).Run first labels last) {index : Nat}
    {task : Task Double Put} (found : last.tasks[index]? = some task) :
    Gated lib first.channels index (labels.filterMap Label.side?) task :=
  (run_explained begins run found).gated

def quietLibrary : Library (Option Int) where
  shown _ := "error"
  ecaMessage _ := "message"
  ecaStatus _ _ := ecaInternal
  seconds _ := "5"
  unconnected := .disconnected

/-- One channel that never connects, one that cannot be written and one that
can. -/
def threeChannels : Channels := fun handle => ⟨none, true, handle == 2⟩

def threeWrites : Call (Option Int) Int where
  channels := threeChannels
  tasks := [⟨"gone", 0, .put 7 true, some (some 5), .ready, [], []⟩,
    ⟨"locked", 1, .put 7 true, some (some 5), .ready, [], []⟩,
    ⟨"there", 2, .put 7 true, some (some 5), .ready, [], []⟩]
  out := []
  abandoned := false

/-- Two of the channels connect, and the last one takes its write. -/
def lastOnly : List (Label (Option Int)) :=
  [.side (.inr (0, .poll)), .side (.inl (.connected 2 .long 1)),
    .side (.inr (2, .poll)), .side (.inl (.connected 1 .long 1)),
    .side (.inr (2, .informed)), .side (.inr (2, .issue)),
    .side (.inr (1, .poll)), .side (.inr (1, .informed)),
    .side (.inr (2, .answered (.ok none))), .side (.inr (0, .expire)),
    .await, .await, .await]

theorem threeWrites_begins : threeWrites.Begins where
  ready := by simp [threeWrites]
  issued := by simp [threeWrites]
  answers := by simp [threeWrites]
  out := rfl

theorem requests_pass_gate_lastOnly :
    ∃ call : Call (Option Int) Int,
      call.tasks.map Task.issued = [[], [], [.write 7 true]] ∧
      ∀ index task, call.tasks[index]? = some task →
        Gated quietLibrary threeChannels index
          (lastOnly.filterMap Label.side?) task := by
  have run : (Call.system quietLibrary).Run threeWrites lastOnly _ :=
    Transition.Run.of_foldlM rfl
  refine ⟨_, ?_, fun index task found =>
    Call.requests_pass_gate threeWrites_begins run found⟩
  rfl

end Repics.Ca.Operations
