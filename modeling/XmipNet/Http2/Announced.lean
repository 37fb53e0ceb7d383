import XmipNet.Http2.Settings

/-!
# Settings announced are the settings applied

What differs from the initial value is announced as a pair, in a fixed order;
applied to the initial settings, one pair after another makes them what was
announced.
-/

namespace XmipNet
namespace Http2
namespace Settings

/-- Numbers that the words of a pair hold. -/
structure Worded (settings : Settings) : Prop where
  table : settings.headerTableSize < 2 ^ 32
  streams : ∀ streams ∈ settings.maxConcurrentStreams, streams < 2 ^ 32
  list : ∀ size ∈ settings.maxHeaderListSize, size < 2 ^ 32

/-- The pair that announces a value, where there is one to announce. -/
def announced (id : Nat) (value : Option Nat) : List UInt8 :=
  match value with
  | some value => pair id value
  | none => []

/-- A value that is announced where it is not the initial one. -/
def changed (value initial : Nat) : Option Nat :=
  if value ≠ initial then some value else none

theorem encode_eq (settings : Settings) :
    settings.encode =
      announced 0x1
          (changed settings.headerTableSize default.headerTableSize) ++
        announced 0x2 (if settings.enablePush then none else some 0) ++
        announced 0x3 settings.maxConcurrentStreams ++
        announced 0x4
          (changed settings.initialWindowSize default.initialWindowSize) ++
        announced 0x5 (changed settings.maxFrameSize default.maxFrameSize) ++
        announced 0x6 settings.maxHeaderListSize := by
  have differs (id value initial : Nat) :
      (if value ≠ initial then pair id value else []) =
        announced id (changed value initial) := by
    rw [changed]
    split <;> rfl
  have pushes : (if settings.enablePush ≠ default.enablePush then
      pair 0x2 (if settings.enablePush then 1 else 0) else []) =
        announced 0x2 (if settings.enablePush then none else some 0) := by
    cases settings.enablePush <;> rfl
  rw [encode, differs, differs, differs, pushes]
  rfl

theorem length_pair (id value : Nat) : (pair id value).length = 6 := by
  simp [pair]

/-! ## How long a payload is -/

theorem length_announced (id : Nat) (value : Option Nat) :
    6 ∣ (announced id value).length ∧ (announced id value).length ≤ 6 := by
  cases value with
  | none => exact ⟨Nat.dvd_zero 6, Nat.zero_le 6⟩
  | some value => exact ⟨(length_pair id value).symm.dvd, (length_pair id value).le⟩

/-- Settings take whole parameters, six at most. -/
theorem length_encode (settings : Settings) :
    6 ∣ settings.encode.length ∧ settings.encode.length ≤ 36 := by
  rw [encode_eq]
  simp only [List.length_append]
  have table := length_announced 0x1
    (changed settings.headerTableSize default.headerTableSize)
  have push := length_announced 0x2
    (if settings.enablePush then none else some 0)
  have streams := length_announced 0x3 settings.maxConcurrentStreams
  have window := length_announced 0x4
    (changed settings.initialWindowSize default.initialWindowSize)
  have frame := length_announced 0x5
    (changed settings.maxFrameSize default.maxFrameSize)
  have list := length_announced 0x6 settings.maxHeaderListSize
  exact ⟨by omega, by omega⟩

/-! ## One pair after another -/

/-- A pair that is written is applied first. -/
theorem applyPairs_pair
    {settings applied : Settings}
    {client : Bool}
    {id value : Nat}
    (named : id < 256 ^ 2)
    (worded : value < 256 ^ 4)
    (sets : settings.set id value client = .ok applied)
    (rest : List UInt8) :
    settings.applyPairs client (pair id value ++ rest) =
      applied.applyPairs client rest := by
  have identifier := BigEndian.read_write_of_lt named
  have number := BigEndian.read_write_of_lt worded
  simp only [BigEndian.write, List.nil_append, List.cons_append]
    at identifier number
  simp only [pair, BigEndian.write, List.nil_append, List.cons_append,
    applyPairs, identifier, number, sets]

/-- What is announced is applied, and what is not leaves the settings. -/
theorem applyPairs_announced
    {settings applied : Settings}
    {client : Bool}
    {id : Nat}
    {value : Option Nat}
    (named : id < 256 ^ 2)
    (worded : ∀ number ∈ value, number < 256 ^ 4)
    (sets : ∀ number ∈ value, settings.set id number client = .ok applied)
    (idle : value = none → applied = settings)
    (rest : List UInt8) :
    settings.applyPairs client (announced id value ++ rest) =
      applied.applyPairs client rest := by
  cases value with
  | none => rw [idle rfl, announced, List.nil_append]
  | some number =>
      exact applyPairs_pair named (worded number rfl) (sets number rfl) rest

theorem mem_changed
    {value initial number : Nat}
    (member : number ∈ changed value initial) :
    number = value := by
  rw [changed] at member
  split at member
  · exact (Option.some.inj member).symm
  · cases member

theorem eq_of_changed
    {value initial : Nat}
    (same : changed value initial = none) :
    value = initial := by
  rw [changed] at same
  split at same
  · cases same
  next equal => exact not_not.mp equal

/-- A number that differs from the initial one is applied, and so is the initial
one that is not announced. -/
theorem applyPairs_changed
    {settings applied : Settings}
    {client : Bool}
    {id value initial : Nat}
    (named : id < 256 ^ 2)
    (worded : value < 256 ^ 4)
    (sets : settings.set id value client = .ok applied)
    (idle : value = initial → applied = settings)
    (rest : List UInt8) :
    settings.applyPairs client (announced id (changed value initial) ++ rest) =
      applied.applyPairs client rest := by
  refine applyPairs_announced named (fun number member => ?_)
    (fun number member => ?_) (fun same => idle (eq_of_changed same)) rest
  · rwa [mem_changed member]
  · rwa [mem_changed member]

theorem set_window
    {value : Nat}
    (within : value ≤ maxStreamId)
    (settings : Settings)
    (client : Bool) :
    settings.set 0x4 value client =
      .ok { settings with initialWindowSize := value } :=
  if_neg (not_lt.mpr within)

theorem set_frame
    {value : Nat}
    (least : defaultMaxFrameSize ≤ value)
    (most : value ≤ maxFrameSizeLimit)
    (settings : Settings)
    (client : Bool) :
    settings.set 0x5 value client =
      .ok { settings with maxFrameSize := value } :=
  if_pos ⟨least, most⟩

/-- Settings announced to a peer that knows the initial ones are the settings it
applies. -/
theorem apply_encode
    {settings : Settings}
    (worded : Worded settings)
    (admitted : Admitted settings)
    (client : Bool) :
    default.apply settings.encode client = (.ok (), settings) := by
  obtain ⟨table, push, streams, window, frame, list⟩ := settings
  obtain ⟨tableWord, streamsWord, listWord⟩ := worded
  obtain ⟨windowFits, leastFrame, mostFrame⟩ := admitted
  simp only at tableWord streamsWord listWord windowFits leastFrame mostFrame
  have windowWord : window < 256 ^ 4 := lt_of_le_of_lt windowFits (by decide)
  have frameWord : frame < 256 ^ 4 := lt_of_le_of_lt mostFrame (by decide)
  rw [apply, if_neg (not_not.mpr
    (Nat.mod_eq_zero_of_dvd (length_encode _).1)), encode_eq]
  have pushWord : ∀ number ∈ (if push then none else some 0),
      number < 256 ^ 4 := by
    intro number member
    cases push <;> cases member
    decide
  have pushed : ∀ number ∈ (if push then none else some 0),
      ({ default with headerTableSize := table } : Settings).set 0x2 number
        client = .ok { default with
          headerTableSize := table
          enablePush := push } := by
    intro number member
    cases push <;> cases member
    cases client <;> rfl
  have streamed : ∀ number ∈ streams,
      ({ default with
          headerTableSize := table
          enablePush := push } : Settings).set 0x3 number client =
        .ok { default with
          headerTableSize := table
          enablePush := push
          maxConcurrentStreams := streams } := by
    rintro number ⟨⟩
    rfl
  have listed : ∀ number ∈ list,
      (⟨table, push, streams, window, frame, none⟩ : Settings).set 0x6 number
        client = .ok ⟨table, push, streams, window, frame, list⟩ := by
    rintro number ⟨⟩
    rfl
  simp only [List.append_assoc]
  refine (applyPairs_changed (by decide) tableWord rfl ?_ _).trans ?_
  · rintro rfl
    rfl
  refine (applyPairs_announced (by decide) pushWord pushed ?_ _).trans ?_
  · intro same
    cases push <;> cases same
    rfl
  refine (applyPairs_announced (by decide) streamsWord streamed ?_ _).trans ?_
  · rintro rfl
    rfl
  refine (applyPairs_changed (by decide) windowWord
    (set_window windowFits _ _) ?_ _).trans ?_
  · rintro rfl
    rfl
  refine (applyPairs_changed (by decide) frameWord
    (set_frame leastFrame mostFrame _ _) ?_ _).trans ?_
  · rintro rfl
    rfl
  rw [← List.append_nil (announced 0x6 list)]
  refine (applyPairs_announced (by decide) listWord listed ?_ _).trans rfl
  rintro rfl
  rfl

/-! ## Payloads one after another -/

/-- Payloads applied one after another, each accepted or not. -/
def applyAll : Settings → List (List UInt8 × Bool) → Settings
  | settings, [] => settings
  | settings, (payload, client) :: rest =>
      applyAll (settings.apply payload client).2 rest

/-- Settings stay within their limits, whatever comes. -/
theorem Admitted.applyAll
    {settings : Settings}
    (admitted : Admitted settings)
    (payloads : List (List UInt8 × Bool)) :
    Admitted (settings.applyAll payloads) := by
  induction payloads generalizing settings with
  | nil => exact admitted
  | cons first rest inductionHypothesis =>
      exact inductionHypothesis (admitted.apply first.1 first.2)

end Settings
end Http2
end XmipNet
