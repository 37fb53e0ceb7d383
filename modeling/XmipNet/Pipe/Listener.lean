import Mathlib.Data.List.Nodup

/-!
# The made end of a named pipe

An instance of the pipe is waited on until a client has reached it; the next
instance is made before the reached one is handed out, and none is used again.
Clients come at any time, also while one is being accepted. Whatever the order
and whatever fails, each client is one connection: none is handed out twice, and
none is lost but one that reached an instance made for nothing.
-/

namespace XmipNet
namespace Pipe

/-! ## One operation -/

/-- Why an operation failed: by the system's code, or as its time ran out. -/
inductive Failure
  | system (code : Nat)
  | timedOut (text : String)
  deriving DecidableEq, Repr

/-- The system's code of a read whose peer is gone. -/
def brokenPipe : Nat := 109

/-- The system's code of an instance whose client has come and gone. -/
def noData : Nat := 232

/-- The system's code of an instance that no client is connected to. -/
def notConnected : Nat := 233

/-- The system's code of an instance that a client had reached already. -/
def alreadyConnected : Nat := 535

/-- The system's code of an operation that was cancelled. -/
def operationAborted : Nat := 995

/-- The system's code of an operation that has started and not ended. -/
def pending : Nat := 997

/-- What the system says of one operation: whether starting it failed, whether its
event was signaled in time, and how it ended, having moved so many octets. -/
structure Operation where
  started : Except Nat Unit
  signaled : Bool
  ended : Except Nat Nat
  deriving DecidableEq, Repr

/-- One operation waited for to its end, and cancelled where it has not ended
within so many milliseconds: how many octets it moved. -/
def waited (within : Option Nat) (operation : Operation) : Except Failure Nat :=
  let finish (cancelled : Bool) : Except Failure Nat :=
    match operation.ended with
    | .ok moved => .ok moved
    | .error code =>
        if cancelled ∧ code = operationAborted then
          .error (.timedOut s!"nothing came within {within.getD 0} ms")
        else
          .error (.system code)
  match operation.started with
  | .ok () => finish false
  | .error code =>
      if code = pending then
        finish (within.isSome ∧ ¬operation.signaled)
      else
        .error (.system code)

/-- Whether a failure says that the peer is gone. -/
def Failure.Gone : Failure → Prop
  | .system code => code = brokenPipe ∨ code = notConnected
  | .timedOut _ => False

instance (failure : Failure) : Decidable failure.Gone := by
  cases failure with
  | system code => exact inferInstanceAs (Decidable (_ ∨ _))
  | timedOut text => exact inferInstanceAs (Decidable False)

/-- How much one read of a pipe moved: none where the peer is gone. -/
def moved (operation : Operation) : Except Failure Nat :=
  match waited none operation with
  | .ok count => .ok count
  | .error failure => if failure.Gone then .ok 0 else .error failure

/-- Wait until a client has connected to an instance. -/
def connected
    (within : Option Nat)
    (operation : Operation) : Except Failure Unit :=
  match waited within operation with
  | .ok _ => .ok ()
  | .error (.system code) =>
      if code = alreadyConnected ∨ code = noData then
        .ok ()
      else
        .error (.system code)
  | .error (.timedOut text) => .error (.timedOut text)

/-! ## Clients and instances -/

/-- The made end and who came to it. The instances are numbered as they are made;
`next` is the one a client reaches next and `after` the one being made for the
next after it. `reached` is which client reached which instance, in the order
they came. -/
structure Listener where
  next : Nat
  after : Option Nat
  made : Nat
  reached : List (Nat × Nat)
  handed : List Nat
  dropped : List Nat
  deriving DecidableEq, Repr

namespace Listener

/-- The pipe just made. -/
def bind : Listener where
  next := 0
  after := none
  made := 1
  reached := []
  handed := []
  dropped := []

/-- The instance a client that opens the pipe reaches: none where every one is
busy. -/
def free (listener : Listener) : Option Nat :=
  (listener.next :: listener.after.toList).find? fun number =>
    number ∉ listener.reached.map Prod.fst

/-- A client opens the pipe. -/
def arrive (listener : Listener) (client : Nat) : Listener :=
  match listener.free with
  | some number =>
      { listener with reached := listener.reached ++ [(number, client)] }
  | none => listener

/-- What happens while one connection is accepted: what the system answers, and
who comes while the accept waits, before the next instance is made and before the
reached one is handed out. -/
structure Accepting where
  within : Option Nat
  waiting : List Nat
  operation : Operation
  making : List Nat
  makes : Except Nat Unit
  handing : List Nat
  event : Except Nat Unit
  deriving DecidableEq, Repr

/-- The next connection, once a client has connected: the number of the instance
handed out, the one after it made first. -/
def accept
    (accepting : Accepting)
    (listener : Listener) : Except Failure Nat × Listener :=
  let waited := accepting.waiting.foldl arrive listener
  match connected accepting.within accepting.operation with
  | .error failure => (.error failure, waited)
  | .ok () =>
      let reached := accepting.making.foldl arrive waited
      match accepting.makes with
      | .error code => (.error (.system code), reached)
      | .ok () =>
          let after := reached.made
          let making := accepting.handing.foldl arrive
            { reached with after := some after, made := after + 1 }
          match accepting.event with
          | .error code =>
              (.error (.system code), { making with
                after := none, dropped := making.dropped ++ [after] })
          | .ok () =>
              (.ok making.next, { making with
                next := after
                after := none
                handed := making.handed ++ [making.next] })

/-- A wait for a client ends well only where one has reached the instance. -/
def Honest (accepting : Accepting) (listener : Listener) : Prop :=
  connected accepting.within accepting.operation = .ok () →
    listener.next ∈
      (accepting.waiting.foldl arrive listener).reached.map Prod.fst

/-- What happens at the made end: a client comes, or a connection is accepted. -/
inductive Move
  | arrives (client : Nat)
  | accepts (accepting : Accepting)

/-- One thing that happens, and the instance it hands out. -/
def move (moves : Move) (listener : Listener) : Option Nat × Listener :=
  match moves with
  | .arrives client => (none, listener.arrive client)
  | .accepts accepting =>
      ((listener.accept accepting).1.toOption, (listener.accept accepting).2)

/-- All that happens, one after another: the instances handed out in order, and
the made end after it. -/
def run : List Move → Listener → List Nat × Listener
  | [], listener => ([], listener)
  | moves :: rest, listener =>
      let later := run rest (listener.move moves).2
      ((listener.move moves).1.toList ++ later.1, later.2)

/-- Every wait in a run is honest. -/
def Truthful : List Move → Listener → Prop
  | [], _ => True
  | .arrives client :: rest, listener =>
      Truthful rest (listener.arrive client)
  | .accepts accepting :: rest, listener =>
      listener.Honest accepting ∧ Truthful rest (listener.accept accepting).2

/-- The clients that come, in order. -/
def Move.clients : Move → List Nat
  | .arrives client => [client]
  | .accepts accepting =>
      accepting.waiting ++ accepting.making ++ accepting.handing

/-! ## What is kept -/

/-- The instances that may be reached. -/
def opened (listener : Listener) : List Nat :=
  listener.next :: listener.after.toList

/-- The instances that were reached, but for those made for nothing. -/
def came (listener : Listener) : List Nat :=
  (listener.reached.map Prod.fst).filter (· ∉ listener.dropped)

/-- Instances are handed out and reached in the order they were made: those handed
out are the beginning of those reached, and these of all that were made for a
client. -/
structure Sound (listener : Listener) : Prop where
  below : ∀ number ∈ listener.handed ++ listener.opened ++ listener.dropped ++
    listener.reached.map Prod.fst, number < listener.made
  once : (listener.reached.map Prod.fst).Nodup
  apart : (listener.handed ++ listener.opened ++ listener.dropped).Nodup
  begins : listener.handed <+: listener.came
  ends : listener.came <+: listener.handed ++ listener.opened

section Sound

variable {listener : Listener}

theorem sound_bind : Sound bind where
  below := by decide
  once := by decide
  apart := by decide
  begins := List.prefix_refl _
  ends := by decide

/-- What was reached and not handed out is the beginning of what may be reached. -/
theorem Sound.split (sound : listener.Sound) :
    ∃ front back, listener.came = listener.handed ++ front ∧
      listener.opened = front ++ back := by
  obtain ⟨front, came⟩ := sound.begins
  have ends := sound.ends
  rw [← came] at ends
  obtain ⟨back, opened⟩ := (List.prefix_append_right_inj _).mp ends
  exact ⟨front, back, came.symm, opened.symm⟩

theorem Sound.apart_opened
    (sound : listener.Sound)
    {number : Nat}
    (member : number ∈ listener.opened) :
    number ∉ listener.handed ∧ number ∉ listener.dropped := by
  obtain ⟨kept, _, dropped⟩ := List.nodup_append.mp sound.apart
  obtain ⟨_, _, handed⟩ := List.nodup_append.mp kept
  exact ⟨fun also => handed number also number member rfl,
    fun also => dropped number (List.mem_append_right _ member) number also rfl⟩

theorem mem_came_iff {number : Nat} :
    number ∈ listener.came ↔
      number ∈ listener.reached.map Prod.fst ∧ number ∉ listener.dropped := by
  rw [came, List.mem_filter, decide_eq_true_iff]

/-- The instance a client reaches is the first that none has reached. -/
theorem Sound.free
    (sound : listener.Sound)
    {number : Nat}
    (free : listener.free = some number) :
    listener.came ++ [number] <+: listener.handed ++ listener.opened ∧
      number ∈ listener.opened ∧
      number ∉ listener.reached.map Prod.fst := by
  have found : listener.opened.find? (fun other =>
      other ∉ listener.reached.map Prod.fst) = some number := free
  have member := List.mem_of_find?_eq_some found
  have unreached : number ∉ listener.reached.map Prod.fst := by
    simpa using List.find?_some found
  refine ⟨?_, member, unreached⟩
  obtain ⟨front, back, came, opened⟩ := sound.split
  have met : front.find? (fun other =>
      other ∉ listener.reached.map Prod.fst) = none := by
    refine List.find?_eq_none.mpr fun other among => ?_
    have came : other ∈ listener.came :=
      came ▸ List.mem_append_right _ among
    simpa using (mem_came_iff.mp came).1
  rw [opened, List.find?_append, met, Option.none_or] at found
  obtain ⟨_, earlier, later, split, before⟩ :=
    List.find?_eq_some_iff_append.mp found
  have none : earlier = [] := by
    refine List.eq_nil_iff_forall_not_mem.mpr fun other among => ?_
    have behind : other ∈ back := split ▸ List.mem_append_left _ among
    have free : other ∈ listener.opened :=
      opened ▸ List.mem_append_right _ behind
    obtain ⟨unhanded, kept⟩ := sound.apart_opened free
    have already : other ∈ listener.came :=
      mem_came_iff.mpr ⟨by simpa using before other among, kept⟩
    rw [came] at already
    have ahead := (List.mem_append.mp already).resolve_left unhanded
    have apart := (List.nodup_append.mp (List.nodup_append.mp sound.apart).1).2.1
    rw [opened] at apart
    exact (List.nodup_append.mp apart).2.2 other ahead other behind rfl
  rw [none, List.nil_append] at split
  rw [came, opened, split, List.append_assoc]
  exact (List.prefix_append_right_inj _).mpr
    ((List.prefix_append_right_inj _).mpr ⟨later, rfl⟩)

/-- A client that comes reaches the next instance that none has reached. -/
theorem Sound.arrive
    (sound : listener.Sound)
    (client : Nat) :
    (listener.arrive client).Sound := by
  rw [Listener.arrive]
  split
  next number free =>
    obtain ⟨ends, member, unreached⟩ := sound.free free
    have kept := (sound.apart_opened member).2
    have came : (listener.reached ++ [(number, client)]).map Prod.fst =
        listener.reached.map Prod.fst ++ [number] := List.map_append
    have appended : ((listener.reached.map Prod.fst ++ [number]).filter
        (· ∉ listener.dropped)) = listener.came ++ [number] := by
      rw [List.filter_append, Listener.came,
        List.filter_cons_of_pos (by simpa using kept), List.filter_nil]
    refine ⟨?_, ?_, sound.apart, ?_, ?_⟩
    · intro other among
      simp only [came] at among
      rw [← List.append_assoc] at among
      rcases List.mem_append.mp among with before | is
      · exact sound.below other before
      · rw [List.mem_singleton.mp is]
        exact sound.below number (List.mem_append_left _
          (List.mem_append_left _ (List.mem_append_right _ member)))
    · simp only [came]
      exact List.nodup_append.mpr ⟨sound.once, List.nodup_singleton number,
        fun other among same is equal => unreached
          (List.mem_singleton.mp is ▸ equal ▸ among)⟩
    · rw [Listener.came]
      simp only [came, appended]
      exact sound.begins.trans (List.prefix_append _ _)
    · rw [Listener.came]
      simp only [came, appended]
      exact ends
  next => exact sound

/-- A client that comes changes nothing but who has come. -/
theorem arrive_frame (listener : Listener) (client : Nat) :
    ∃ more, listener.arrive client =
        { listener with reached := listener.reached ++ more } ∧
      (more.map Prod.snd).Sublist [client] := by
  rw [Listener.arrive]
  split
  next number free => exact ⟨[(number, client)], rfl, .refl _⟩
  next => exact ⟨[], by rw [List.append_nil], List.nil_sublist _⟩

theorem arrivals_frame (listener : Listener) (clients : List Nat) :
    ∃ more, clients.foldl arrive listener =
        { listener with reached := listener.reached ++ more } ∧
      (more.map Prod.snd).Sublist clients := by
  induction clients generalizing listener with
  | nil => exact ⟨[], by rw [List.append_nil]; rfl, .slnil⟩
  | cons client clients inductionHypothesis =>
      obtain ⟨first, arrives, one⟩ := arrive_frame listener client
      obtain ⟨more, arrive, others⟩ :=
        inductionHypothesis (listener.arrive client)
      refine ⟨first ++ more, ?_, ?_⟩
      · rw [List.foldl_cons, arrive, arrives]
        simp only [List.append_assoc]
      · rw [List.map_append]
        exact one.append others

theorem Sound.arrivals
    (sound : listener.Sound)
    (clients : List Nat) :
    (clients.foldl Listener.arrive listener).Sound := by
  induction clients generalizing listener with
  | nil => exact sound
  | cons client clients inductionHypothesis =>
      exact inductionHypothesis (sound.arrive client)

/-- A new instance is behind all the others. -/
theorem Sound.make
    (sound : listener.Sound)
    (idle : listener.after = none) :
    { listener with
      after := some listener.made, made := listener.made + 1 }.Sound := by
  have opened : listener.opened = [listener.next] := by
    rw [Listener.opened, idle]
    rfl
  have below := sound.below
  have apart := sound.apart
  have ends := sound.ends
  rw [opened] at below apart ends
  refine ⟨?_, sound.once, ?_, sound.begins, ?_⟩
  · intro number among
    by_cases new : number = listener.made
    · rw [new]
      exact Nat.lt_succ_self _
    · refine Nat.lt_succ_of_lt (below number ?_)
      simp only [Listener.opened, Option.toList_some] at among
      simp only [List.mem_append, List.mem_cons, List.not_mem_nil,
        or_false] at among ⊢
      tauto
  · have fresh {number : Nat} (among : number ∈ listener.handed ++
        [listener.next] ++ listener.dropped) : number ≠ listener.made :=
      Nat.ne_of_lt (below number (List.mem_append_left _ among))
    have order : listener.handed ++ [listener.next, listener.made] ++
        listener.dropped = listener.handed ++ [listener.next] ++
          listener.made :: listener.dropped := by
      simp only [List.append_assoc, List.cons_append, List.nil_append]
    have last := List.nodup_middle.mpr (List.nodup_cons.mpr
      ⟨fun among => fresh among rfl, apart⟩)
    rw [← order] at last
    exact last
  · exact ends.trans ((List.prefix_append_right_inj _).mpr ⟨[listener.made], rfl⟩)

/-- An instance made for nothing goes, and a client that reached it. -/
theorem Sound.drop
    (sound : listener.Sound)
    {number : Nat}
    (made : listener.after = some number) :
    { listener with
      after := none, dropped := listener.dropped ++ [number] }.Sound := by
  have opened : listener.opened = [listener.next, number] := by
    rw [Listener.opened, made]
    rfl
  obtain ⟨below, once, apart, begins, ends⟩ := sound
  rw [opened] at below apart ends
  have order : listener.handed ++ [listener.next, number] =
      listener.handed ++ [listener.next] ++ [number] := by
    rw [List.append_assoc]
    rfl
  rw [order] at apart ends
  have new : number ∉ listener.handed ++ [listener.next] := fun among =>
    (List.nodup_append.mp (List.nodup_append.mp apart).1).2.2 number among
      number (List.mem_singleton_self number) rfl
  have same {numbers : List Nat} (within : numbers ⊆ listener.handed ++
      [listener.next]) : numbers.filter (· ≠ number) = numbers :=
    List.filter_eq_self.mpr fun another among => by
      simpa using ne_of_mem_of_not_mem (within among) new
  have came : (listener.reached.map Prod.fst).filter
      (· ∉ listener.dropped ++ [number]) =
        listener.came.filter (· ≠ number) := by
    rw [Listener.came, List.filter_filter]
    refine List.filter_congr fun another _ => ?_
    simp only [List.mem_append, List.mem_singleton, not_or, Bool.decide_and,
      Bool.and_comm]
  refine ⟨?_, once, ?_, ?_, ?_⟩
  · intro another among
    refine below another ?_
    simp only [Listener.opened, Option.toList_none] at among
    simp only [List.mem_append, List.mem_cons, List.not_mem_nil,
      or_false] at among ⊢
    tauto
  · rw [List.append_assoc] at apart
    exact ((List.perm_append_singleton number listener.dropped).symm.append_left
      _).nodup_iff.mp apart
  · rw [Listener.came]
    simp only [came]
    rw [← same (List.subset_append_left listener.handed [listener.next])]
    exact begins.filter _
  · rw [Listener.came]
    simp only [came]
    have fewer := ends.filter (· ≠ number)
    rw [List.filter_append, same (List.Subset.refl _),
      List.filter_cons_of_neg (by simp), List.filter_nil,
      List.append_nil] at fewer
    exact fewer

/-- The instance that was reached goes to its reader, the new one in its place. -/
theorem Sound.hand
    (sound : listener.Sound)
    {number : Nat}
    (made : listener.after = some number)
    (reached : listener.next ∈ listener.reached.map Prod.fst) :
    { listener with
      next := number
      after := none
      handed := listener.handed ++ [listener.next] }.Sound := by
  have opened : listener.opened = [listener.next, number] := by
    rw [Listener.opened, made]
    rfl
  have first : listener.next ∈ listener.opened := List.mem_cons_self
  obtain ⟨unhanded, kept⟩ := sound.apart_opened first
  have came : listener.next ∈ listener.came := mem_came_iff.mpr ⟨reached, kept⟩
  obtain ⟨front, back, split, open_⟩ := sound.split
  obtain ⟨below, once, apart, begins, ends⟩ := sound
  have order : listener.handed ++ listener.opened =
      listener.handed ++ [listener.next] ++ [number] := by
    rw [opened, List.append_assoc]
    rfl
  rw [order] at below apart ends
  refine ⟨below, once, apart, ?_, ends⟩
  rw [split] at came
  have ahead := (List.mem_append.mp came).resolve_left unhanded
  rw [opened] at open_
  cases front with
  | nil => cases ahead
  | cons head front =>
      obtain ⟨same, _⟩ := List.cons.inj open_
      have whole : listener.came = listener.handed ++ [listener.next] ++ front := by
        rw [split, same, List.append_assoc]
        rfl
      exact ⟨front, whole.symm⟩

/-- What one thing that happens leaves: a sound state with no instance in the
making, what was handed out at the end of what had been, and as clients only some
of those that came. -/
structure Goes (listener : Listener) (moves : Move)
    (result : Option Nat × Listener) : Prop where
  sound : result.2.Sound
  idle : result.2.after = none
  handed : result.2.handed = listener.handed ++ result.1.toList
  clients : ∃ more, result.2.reached = listener.reached ++ more ∧
    (more.map Prod.snd).Sublist moves.clients
  dropped : (∀ accepting, moves = .accepts accepting →
    accepting.event = .ok ()) → result.2.dropped = listener.dropped

theorem Sound.goes_arrives
    (sound : listener.Sound)
    (idle : listener.after = none)
    (client : Nat) :
    Goes listener (.arrives client) (listener.move (.arrives client)) := by
  obtain ⟨more, arrives, one⟩ := arrive_frame listener client
  have after := sound.arrive client
  rw [arrives] at after
  rw [move, arrives]
  exact ⟨after, idle, (List.append_nil _).symm, ⟨more, rfl, one⟩, fun _ => rfl⟩

theorem Sound.goes_accepts
    (sound : listener.Sound)
    (idle : listener.after = none)
    {accepting : Accepting}
    (honest : listener.Honest accepting) :
    Goes listener (.accepts accepting)
      (listener.move (.accepts accepting)) := by
  obtain ⟨early, waits, first⟩ := arrivals_frame listener accepting.waiting
  have waiting := sound.arrivals accepting.waiting
  rw [Honest, waits] at honest
  rw [waits] at waiting
  cases connects : connected accepting.within accepting.operation with
  | error failure =>
      have result : listener.move (.accepts accepting) = (none,
          { listener with reached := listener.reached ++ early }) := by
        simp only [move, accept, waits, connects, Except.toOption]
      rw [result]
      refine ⟨waiting, idle, (List.append_nil _).symm, ⟨early, rfl, ?_⟩,
        fun _ => rfl⟩
      rw [Move.clients, List.append_assoc]
      exact first.trans (List.sublist_append_left _ _)
  | ok _ =>
      obtain ⟨middle, makes, second⟩ := arrivals_frame
        { listener with reached := listener.reached ++ early } accepting.making
      have making := waiting.arrivals accepting.making
      rw [makes] at making
      have came : listener.next ∈
          (listener.reached ++ early ++ middle).map Prod.fst := by
        rw [List.map_append]
        exact List.mem_append_left _ (honest connects)
      have two : ((early ++ middle).map Prod.snd).Sublist
          (accepting.waiting ++ accepting.making) := by
        rw [List.map_append]
        exact first.append second
      cases created : accepting.makes with
      | error code =>
          have result : listener.move (.accepts accepting) = (none,
              { listener with
                reached := listener.reached ++ early ++ middle }) := by
            simp only [move, accept, waits, connects, makes, created,
              Except.toOption]
          rw [result]
          exact ⟨making, idle, (List.append_nil _).symm,
            ⟨early ++ middle, List.append_assoc _ _ _,
              two.trans (List.sublist_append_left _ _)⟩, fun _ => rfl⟩
      | ok _ =>
          obtain ⟨late, hands, third⟩ := arrivals_frame
            { listener with
              reached := listener.reached ++ early ++ middle
              after := some listener.made
              made := listener.made + 1 } accepting.handing
          have handing := (making.make idle).arrivals accepting.handing
          rw [hands] at handing
          have still : listener.next ∈
              (listener.reached ++ early ++ middle ++ late).map Prod.fst := by
            rw [List.map_append]
            exact List.mem_append_left _ came
          have clients : ∃ more, listener.reached ++ early ++ middle ++ late =
              listener.reached ++ more ∧ (more.map Prod.snd).Sublist
                (Move.accepts accepting).clients := by
            refine ⟨early ++ middle ++ late, by simp only [List.append_assoc], ?_⟩
            rw [List.map_append]
            exact two.append third
          cases event : accepting.event with
          | error code =>
              have result : listener.move (.accepts accepting) = (none,
                  { listener with
                    reached := listener.reached ++ early ++ middle ++ late
                    after := none
                    made := listener.made + 1
                    dropped := listener.dropped ++ [listener.made] }) := by
                simp only [move, accept, waits, connects, makes, created, hands,
                  event, Except.toOption]
              rw [result]
              refine ⟨handing.drop rfl, rfl, (List.append_nil _).symm, clients,
                fun fine => ?_⟩
              rw [fine accepting rfl] at event
              cases event
          | ok _ =>
              have result : listener.move (.accepts accepting) =
                  (some listener.next, { listener with
                    next := listener.made
                    reached := listener.reached ++ early ++ middle ++ late
                    after := none
                    made := listener.made + 1
                    handed := listener.handed ++ [listener.next] }) := by
                simp only [move, accept, waits, connects, makes, created, hands,
                  event, Except.toOption]
              rw [result]
              exact ⟨handing.hand rfl still, rfl, rfl, clients, fun _ => rfl⟩

/-- What any run leaves. -/
theorem Sound.run
    (sound : listener.Sound)
    (idle : listener.after = none)
    {moves : List Move}
    (truthful : Truthful moves listener) :
    (run moves listener).2.Sound ∧ (run moves listener).2.after = none ∧
      (run moves listener).2.handed =
        listener.handed ++ (run moves listener).1 ∧
      (∃ more, (run moves listener).2.reached = listener.reached ++ more ∧
        (more.map Prod.snd).Sublist (moves.flatMap Move.clients)) ∧
      ((∀ accepting, .accepts accepting ∈ moves → accepting.event = .ok ()) →
        (run moves listener).2.dropped = listener.dropped) := by
  induction moves generalizing listener with
  | nil =>
      exact ⟨sound, idle, (List.append_nil _).symm,
        ⟨[], (List.append_nil _).symm, .slnil⟩, fun _ => rfl⟩
  | cons moves rest inductionHypothesis =>
      have goes : Goes listener moves (listener.move moves) ∧
          Truthful rest (listener.move moves).2 := by
        cases moves with
        | arrives client => exact ⟨sound.goes_arrives idle client, truthful⟩
        | accepts accepting =>
            exact ⟨sound.goes_accepts idle truthful.1, truthful.2⟩
      obtain ⟨⟨after, still, handed, ⟨first, reached, one⟩, dropped⟩, later⟩ :=
        goes
      obtain ⟨final, ends, hands, ⟨more, reaches, others⟩, drops⟩ :=
        inductionHypothesis after still later
      refine ⟨final, ends, ?_, ⟨first ++ more, ?_, ?_⟩, fun fine => ?_⟩
      · rw [Listener.run, hands, handed, List.append_assoc]
      · rw [Listener.run, reaches, reached, List.append_assoc]
      · rw [List.map_append, List.flatMap_cons]
        exact one.append others
      · rw [Listener.run, drops fun accepting member =>
          fine accepting (List.mem_cons_of_mem _ member)]
        refine dropped fun accepting same => fine accepting ?_
        rw [same]
        exact List.mem_cons_self

end Sound

/-- A client that came before the accept, one that finds the instance busy and one
that reaches the next: the first is handed out, and the last waits. -/
def threeClients : List Move :=
  [.arrives 7, .accepts {
    within := some 50
    waiting := []
    operation := ⟨.error alreadyConnected, false, .ok 0⟩
    making := [8]
    makes := .ok ()
    handing := [9]
    event := .ok () }]

end Listener

end Pipe
end XmipNet
