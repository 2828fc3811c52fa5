import FengShui.Transport.FileLoad
import Mathlib.Order.MinMax

/-!
# What a load keeps

What a load will come to is decided by the events that are added: `outcome` is what the listener
makes of them. Until it is decided all events are payloads, and the reads in flight are the rest of
the round; once it is decided nothing changes it any more.
-/

namespace FengShui.Transport

open FengShui.FileBytes FengShui.Transition TransportFileChannel List

/-! ## The reads of a round -/

@[simp]
theorem length_reads (size count offset : ℕ) : (reads size count offset).length = count := by
  induction count, offset using reads.induct size with
  | case1 => rfl
  | case2 => rfl
  | case3 offset count ih => rw [reads, length_cons, ih]

/-- The first read of a round, and the rest. -/
theorem reads_succ (size count offset : ℕ) :
    reads size (count + 1) offset =
      transportRead offset (decide (0 < count)) :: reads size count (offset + size) := by
  cases count with
  | zero => rfl
  | succ count => rfl

/-! ## What the listener makes of the events -/

/-- The bytes of the payloads. -/
def contents : List FileEvent → Uint8List
  | [] => []
  | .payload bytes :: events => bytes ++ contents events
  | .canceled :: events => contents events

/-- What the future completes with, once the events are delivered. -/
def outcome (stat : ℕ) : Uint8List → List FileEvent → Option Uint8List
  | _, [] => none
  | bytes, .canceled :: _ => some bytes
  | bytes, .payload payload :: events =>
    if payload = [] then some bytes
    else if (bytes ++ payload).length = stat then some (bytes ++ payload)
    else outcome stat (bytes ++ payload) events

@[simp]
theorem contents_append (front back : List FileEvent) :
    contents (front ++ back) = contents front ++ contents back := by
  induction front with
  | nil => rfl
  | cons event front ih =>
    cases event with
    | payload bytes => rw [cons_append, contents, contents, ih, append_assoc]
    | canceled => rw [cons_append, contents, contents, ih]

variable {stat : ℕ} {bytes : Uint8List} {events : List FileEvent}

/-- What is decided stays, whatever is added. -/
theorem outcome_append_of_some {result : Uint8List} (h : outcome stat bytes events = some result)
    (more : List FileEvent) : outcome stat bytes (events ++ more) = some result := by
  induction events generalizing bytes with
  | nil => cases h
  | cons event events ih =>
    cases event with
    | canceled => exact h
    | payload payload =>
      unfold outcome at h
      rw [cons_append, outcome]
      split_ifs at h ⊢ with hempty hall
      · exact h
      · exact h
      · exact ih h

/-- What is not decided goes by what is added. -/
theorem outcome_append_of_none (h : outcome stat bytes events = none) (more : List FileEvent) :
    outcome stat bytes (events ++ more) = outcome stat (bytes ++ contents events) more := by
  induction events generalizing bytes with
  | nil => rw [nil_append, contents, append_nil]
  | cons event events ih =>
    cases event with
    | canceled => cases h
    | payload payload =>
      unfold outcome at h
      rw [cons_append, outcome]
      split_ifs at h ⊢ with hempty hall
      rw [ih h, contents, append_assoc]

theorem outcome_payload (stat : ℕ) (bytes payload : Uint8List) :
    outcome stat bytes [.payload payload] =
      if payload = [] then some bytes
      else if (bytes ++ payload).length = stat then some (bytes ++ payload) else none := rfl

/-- A payload that decides nothing. -/
theorem outcome_cons_of_none {payload : Uint8List}
    (h : outcome stat bytes [.payload payload] = none) (events : List FileEvent) :
    outcome stat bytes (.payload payload :: events) = outcome stat (bytes ++ payload) events := by
  have hcons := outcome_append_of_none h events
  rwa [contents, contents, append_nil] at hcons

theorem outcome_cons_of_some {event : FileEvent} {result : Uint8List}
    (h : outcome stat bytes [event] = some result) (events : List FileEvent) :
    outcome stat bytes (event :: events) = some result := outcome_append_of_some h events

@[simp]
theorem payloads_nil : Load.payloads [] = 0 := rfl

@[simp]
theorem payloads_payload (payload : Uint8List) : Load.payloads [.payload payload] = 1 := rfl

@[simp]
theorem payloads_canceled : Load.payloads [.canceled] = 0 := rfl

theorem payloads_append (front back : List FileEvent) :
    Load.payloads (front ++ back) = Load.payloads front + Load.payloads back := countP_append

/-! ## Rounds -/

namespace Load

variable {size : ℕ} {file : Uint8List} {load next : Load} {total : ℕ}

/-- The bytes that are there, delivered or not. -/
def read (load : Load) : Uint8List := load.bytes ++ contents load.events

/-- What the load comes to is still open. -/
def Open (stat : ℕ) (load : Load) : Prop :=
  load.listening = true ∧ outcome stat load.bytes load.events = none

/-- What the load comes to. -/
def Decided (stat : ℕ) (load : Load) (result : Uint8List) : Prop :=
  if load.listening = true then outcome stat load.bytes load.events = some result
  else load.completions = [.bytes result]

/-- The books of a load that has listened: a round is what is counted, what is to be delivered and
what is in flight. -/
structure Rounds (size stat total : ℕ) (load : Load) : Prop where
  chain : ∃ offset, load.inflight = reads size load.inflight.length offset ∧
    (load.broken = false → Open stat load → offset = load.offset + load.read.length)
  buffers : load.available + load.inflight.length + payloads load.events + load.dropped = total
  single : load.single = true → load.blocksCount = 1
  blocks : load.blocksCount ≤ total ∧ 0 < load.blocksCount
  /-- A listener has taken every payload so far. -/
  listens : load.listening = true → load.completions = [] ∧ load.dropped = 0 ∧
    load.counter + load.events.length + load.inflight.length = load.blocksCount ∧
      load.counter < load.blocksCount
  broken : load.broken = true → Open stat load → load.inflight ≠ []
  done : load.listening = false → load.events = [] ∧ ∃ result, load.completions = [.bytes result]

/-- `load`, where there are buffers. -/
theorem start_of_le (size offset : ℕ) {blocksCount available : ℕ} (h : blocksCount ≤ available) :
    start size false blocksCount offset available =
      ⟨blocksCount = 1, offset, blocksCount, 0, [], true, [],
        reads size blocksCount offset, false, [], available - blocksCount, 0⟩ := by
  by_cases hone : blocksCount = 1
  · subst hone
    simp [start, readSingle, submit, reads, h]
  · simp [start, readMany, submit, hone, h]

theorem rounds_start (size stat offset : ℕ) {blocksCount available : ℕ} (hpos : 0 < blocksCount)
    (havail : blocksCount ≤ available) :
    (start size false blocksCount offset available).Rounds size stat available := by
  rw [start_of_le size offset havail]
  refine ⟨⟨offset, by rw [length_reads], fun _ _ => rfl⟩, ?_, fun h => of_decide_eq_true h,
    ⟨havail, hpos⟩, fun _ => ⟨rfl, rfl, ?_, hpos⟩, nofun, nofun⟩
  · simp only [length_reads, payloads, countP_nil]
    omega
  · simp only [length_reads, length_nil]
    omega

/-! ### What a step does -/

variable {count : ℕ}

theorem length_of_legal {offset : ℕ} (h : Legal size file.length offset count) :
    (pread file offset count).length = count := by
  unfold Legal at h
  rw [length_pread]
  split_ifs at h <;> omega

theorem step_completed (h : load.step size file (.completed count) = some next) :
    ∃ read inflight, load.inflight = read :: inflight ∧ load.broken = false ∧
      Legal size file.length read.offset count ∧
      next = notifyPayload (pread file read.offset count)
        { load with inflight := inflight, broken := read.linked && count < size } := by
  unfold step at h
  dsimp only at h
  split at h
  · rename_i read inflight hflight
    split_ifs at h with hlegal
    exact ⟨read, inflight, hflight, hlegal.1, hlegal.2, (Option.some.inj h).symm⟩
  · cases h

theorem step_canceled (h : load.step size file .canceled = some next) :
    ∃ read inflight, load.inflight = read :: inflight ∧ load.broken = true ∧
      next = notifyCanceled { load with inflight := inflight, broken := read.linked } := by
  unfold step at h
  dsimp only at h
  split at h
  · rename_i read inflight hflight
    split_ifs at h with hbroken
    exact ⟨read, inflight, hflight, hbroken, (Option.some.inj h).symm⟩
  · cases h

/-- What a delivery does: it completes the load, starts a round, or counts. -/
inductive Delivery (size stat : ℕ) (load next : Load) : Prop where
  | completes (event : FileEvent) (events : List FileEvent) (result : Uint8List)
    (hevents : load.events = event :: events)
      (hresult : outcome stat load.bytes [event] = some result) (hnext : next = complete { load with
      events := events, bytes := result, available := load.available + payloads [event] })
  | starts (payload : Uint8List) (events : List FileEvent) (blocksCount : ℕ)
    (hevents : load.events = .payload payload :: events)
    (houtcome : outcome stat load.bytes [.payload payload] = none)
    (hblocks : 0 < blocksCount ∧ blocksCount ≤ load.blocksCount)
    (hround : load.counter + 1 = load.blocksCount)
    (hnext : next = submit (reads size blocksCount (load.offset + (load.bytes ++ payload).length))
      { load with
        events := events, bytes := load.bytes ++ payload, available := load.available + 1,
        counter := 0, blocksCount := blocksCount })
  | counts (payload : Uint8List) (events : List FileEvent)
    (hevents : load.events = .payload payload :: events)
    (houtcome : outcome stat load.bytes [.payload payload] = none)
    (hround : load.counter + 1 ≠ load.blocksCount)
    (hnext : next = { load with
      events := events, bytes := load.bytes ++ payload, available := load.available + 1,
      counter := load.counter + 1 })

theorem step_deliver (hsingle : load.single = true → load.blocksCount = 1)
    (hcounter : load.counter < load.blocksCount) (h : load.step size file .deliver = some next) :
    Delivery size file.length load next := by
  unfold step at h
  dsimp only at h
  split at h
  · rename_i payload events hev
    cases h
    unfold onData
    dsimp only
    by_cases hempty : payload = []
    · subst hempty
      exact .completes _ _ load.bytes hev rfl rfl
    rw [if_neg (by simpa using hempty)]
    have hstep := outcome_payload file.length load.bytes payload
    rw [if_neg hempty] at hstep
    by_cases hall : (load.bytes ++ payload).length = file.length
    · rw [if_pos (by omega)]
      rw [if_pos hall] at hstep
      exact .completes _ _ _ hev hstep rfl
    rw [if_neg (by omega)]
    rw [if_neg hall] at hstep
    by_cases hone : load.single = true
    · have hblocks := hsingle hone
      have hzero : load.counter = 0 := by omega
      rw [if_pos hone]
      refine .starts _ _ 1 hev hstep ⟨Nat.one_pos, hblocks.ge⟩ (by omega) ?_
      cases load
      dsimp only at hzero hblocks
      subst hzero hblocks
      rfl
    rw [if_neg hone]
    by_cases hround : load.counter + 1 = load.blocksCount
    · rw [if_pos hround]
      exact .starts _ _ _ hev hstep ⟨by omega, by omega⟩ hround rfl
    · rw [if_neg hround]
      exact .counts _ _ hev hstep hround rfl
  · rename_i events hev
    cases h
    exact .completes _ _ load.bytes hev rfl rfl
  · cases h

/-! ### What a step keeps -/

/-- The rest of a chain, behind its first read. -/
theorem reads_of_cons {first : FileRead} {rest : List FileRead} {offset : ℕ}
    (h : first :: rest = reads size (first :: rest).length offset) :
    first = transportRead offset (decide (0 < rest.length)) ∧
      rest = reads size rest.length (offset + size) := by
  rw [length_cons, reads_succ] at h
  exact List.cons.inj h

theorem read_append_payload (bytes : Uint8List) (load : Load) :
    read { load with events := load.events ++ [.payload bytes] } = load.read ++ bytes := by
  unfold read
  dsimp only
  rw [contents_append, contents, contents, append_nil, append_assoc]

theorem Rounds.completed (h : load.Rounds size file.length total) (hsize : 0 < size)
    (hstep : load.step size file (.completed count) = some next) :
    next.Rounds size file.length total := by
  obtain ⟨first, rest, hflight, hwhole, hlegal, rfl⟩ := step_completed hstep
  obtain ⟨offset, hchain, hplace⟩ := h.chain
  rw [hflight] at hchain
  obtain ⟨hfirst, hrest⟩ := reads_of_cons hchain
  have hlen := length_of_legal hlegal
  have hlinked : first.linked = decide (0 < rest.length) := by rw [hfirst]; rfl
  have hbufs := h.buffers
  rw [hflight, length_cons] at hbufs
  by_cases hlisten : load.listening = true
  · have hnext : notifyPayload (pread file first.offset count)
        { load with inflight := rest, broken := first.linked && count < size } =
          { load with
            inflight := rest, broken := first.linked && count < size,
            events := load.events ++ [.payload (pread file first.offset count)] } := if_pos hlisten
    rw [hnext]
    obtain ⟨hcomps, hdropped, hround, hcounter⟩ := h.listens hlisten
    have hopen : Open file.length { load with
        inflight := rest, broken := first.linked && count < size,
        events := load.events ++ [.payload (pread file first.offset count)] } →
          Open file.length load := by
      rintro ⟨-, hnone⟩
      refine ⟨hlisten, ?_⟩
      by_contra hsome
      obtain ⟨result, hres⟩ := Option.ne_none_iff_exists'.mp hsome
      have hstays := outcome_append_of_some hres [.payload (pread file first.offset count)]
      rw [hnone] at hstays
      cases hstays
    refine ⟨?_, ?_, h.single, h.blocks, fun _ => ⟨hcomps, hdropped, ?_, hcounter⟩, ?_, ?_⟩
    · cases hempty : rest with
      | nil => exact ⟨_, rfl, fun _ _ => rfl⟩
      | cons second rest' =>
        refine ⟨offset + size, hempty ▸ hrest, fun hfull hnone => ?_⟩
        -- The read was full.
        have hcount : count = size := by
          rw [hlinked, hempty] at hfull
          have hlegal' := hlegal
          unfold Legal at hlegal'
          simp only [length_cons, Nat.zero_lt_succ, decide_true, Bool.true_and,
            decide_eq_false_iff_not] at hfull
          split_ifs at hlegal' <;> omega
        have hread := read_append_payload (pread file first.offset count) load
        have hsame : read { load with
            inflight := second :: rest', broken := first.linked && count < size,
            events := load.events ++ [.payload (pread file first.offset count)] } =
              load.read ++ pread file first.offset count := hread
        rw [hsame, length_append, hlen, hcount, hplace hwhole (hopen hnone)]
        dsimp only
        omega
    · dsimp only
      rw [payloads_append, payloads_payload]
      omega
    · dsimp only
      rw [length_append, length_singleton]
      rw [hflight, length_cons] at hround
      omega
    · intro hbroken _ hnil
      dsimp only at hbroken hnil
      rw [hlinked, hnil] at hbroken
      cases hbroken
    · intro hnot
      rw [hlisten] at hnot
      cases hnot
  · have hnot : load.listening = false := eq_false_of_ne_true hlisten
    have hnext : notifyPayload (pread file first.offset count)
        { load with inflight := rest, broken := first.linked && count < size } =
          { load with
            inflight := rest, broken := first.linked && count < size,
            dropped := load.dropped + 1 } := if_neg hlisten
    rw [hnext]
    refine ⟨⟨_, hrest, fun _ hopen => absurd hopen.1 hlisten⟩, ?_, h.single, h.blocks,
      fun hyes => absurd hyes hlisten, fun _ hopen => absurd hopen.1 hlisten, fun _ => h.done hnot⟩
    dsimp only
    omega

theorem Rounds.canceled (h : load.Rounds size file.length total)
    (hstep : load.step size file .canceled = some next) : next.Rounds size file.length total := by
  obtain ⟨first, rest, hflight, hbroken, rfl⟩ := step_canceled hstep
  obtain ⟨offset, hchain, -⟩ := h.chain
  rw [hflight] at hchain
  obtain ⟨-, hrest⟩ := reads_of_cons hchain
  have hbufs := h.buffers
  rw [hflight, length_cons] at hbufs
  unfold notifyCanceled
  by_cases hlisten : load.listening = true
  · obtain ⟨hcomps, hdropped, hround, hcounter⟩ := h.listens hlisten
    have hdec : ¬Open file.length { load with
        inflight := rest, broken := first.linked, available := load.available + 1,
        events := if load.listening = true then load.events ++ [.canceled] else load.events } := by
      rintro ⟨-, hnone⟩
      dsimp only at hnone
      rw [if_pos hlisten] at hnone
      cases hbefore : outcome file.length load.bytes load.events with
      | some result =>
        rw [outcome_append_of_some hbefore] at hnone
        cases hnone
      | none =>
        rw [outcome_append_of_none hbefore] at hnone
        cases hnone
    refine ⟨⟨_, hrest, fun _ hopen => absurd hopen hdec⟩, ?_, h.single, h.blocks,
      fun _ => ⟨hcomps, hdropped, ?_, hcounter⟩, fun _ hopen => absurd hopen hdec, ?_⟩
    · dsimp only
      rw [if_pos hlisten, payloads_append, payloads_canceled]
      omega
    · dsimp only
      rw [if_pos hlisten, length_append, length_singleton]
      rw [hflight, length_cons] at hround
      omega
    · intro hnot
      rw [hlisten] at hnot
      cases hnot
  · have hnot : load.listening = false := eq_false_of_ne_true hlisten
    obtain ⟨hev, hdone⟩ := h.done hnot
    refine ⟨⟨_, hrest, fun _ hopen => absurd hopen.1 hlisten⟩, ?_, h.single, h.blocks,
      fun hyes => absurd hyes hlisten, fun _ hopen => absurd hopen.1 hlisten, fun _ => ⟨?_, hdone⟩⟩
    · dsimp only
      rw [if_neg hlisten]
      omega
    · dsimp only
      rw [if_neg hlisten]
      exact hev

/-- Events are delivered to a listener. -/
theorem Rounds.listening_of_events (h : load.Rounds size stat total) (hev : load.events ≠ []) :
    load.listening = true := by
  by_contra hnot
  exact hev (h.done (eq_false_of_ne_true hnot)).1

theorem Rounds.delivery (h : load.Rounds size file.length total)
    (hstep : load.step size file .deliver = some next) : Delivery size file.length load next := by
  have hev : load.events ≠ [] := by
    rintro hnil
    unfold step at hstep
    dsimp only at hstep
    rw [hnil] at hstep
    cases hstep
  have hlistens := h.listens (h.listening_of_events hev)
  exact step_deliver h.single hlistens.2.2.2 hstep

/-- The last delivery of a round. -/
theorem Rounds.over (h : load.Rounds size stat total) {event : FileEvent}
    (hev : load.events = event :: events) (hcount : load.counter + 1 = load.blocksCount) :
    load.inflight = [] ∧ events = [] := by
  have hlisten := h.listening_of_events (by rw [hev]; exact cons_ne_nil _ _)
  obtain ⟨-, -, hround, -⟩ := h.listens hlisten
  rw [hev, length_cons] at hround
  constructor
  · exact length_eq_zero_iff.mp (by omega)
  · exact length_eq_zero_iff.mp (by omega)

theorem Rounds.deliver (h : load.Rounds size file.length total)
    (hstep : load.step size file .deliver = some next) : next.Rounds size file.length total := by
  have hbufs := h.buffers
  cases h.delivery hstep with
  | completes event events result hev hres hnext =>
    have hlisten := h.listening_of_events (by rw [hev]; exact cons_ne_nil _ _)
    obtain ⟨hcomps, hdropped, hround, hcounter⟩ := h.listens hlisten
    obtain ⟨offset, hchain, -⟩ := h.chain
    subst hnext
    unfold complete
    refine ⟨⟨offset, hchain, fun _ hopen => by cases hopen.1⟩, ?_, h.single, h.blocks,
      nofun, fun _ hopen => (by cases hopen.1), fun _ => ⟨rfl, result, ?_⟩⟩
    · dsimp only
      rw [hev, ← singleton_append, payloads_append] at hbufs
      rw [payloads_nil]
      omega
    · dsimp only
      rw [hcomps]
      rfl
  | starts payload events blocksCount hev hout hblocks hcount hnext =>
    have hlisten := h.listening_of_events (by rw [hev]; exact cons_ne_nil _ _)
    obtain ⟨hcomps, hdropped, -, -⟩ := h.listens hlisten
    obtain ⟨hflight, rfl⟩ := h.over hev hcount
    rw [hev, hflight, payloads_payload, length_nil] at hbufs
    have hroom : (reads size blocksCount (load.offset + (load.bytes ++ payload).length)).length ≤
        load.available + 1 := by
      rw [length_reads]
      have hle := h.blocks.1
      omega
    have hbroken : load.broken = true → ¬Open file.length load := fun hyes hopen =>
      h.broken hyes hopen hflight
    rw [hnext, submit, if_pos hroom]
    dsimp only
    rw [hflight, nil_append]
    refine ⟨⟨_, by rw [length_reads], fun _ _ => ?_⟩, ?_, fun hsingle => ?_, ⟨?_, hblocks.1⟩,
      fun _ => ⟨hcomps, hdropped, ?_, hblocks.1⟩, fun _ _ hnil => ?_, fun hnot => ?_⟩
    · unfold read
      dsimp only
      rw [contents, append_nil]
    · dsimp only
      rw [length_reads] at hroom ⊢
      rw [payloads_nil]
      omega
    · have hblocksOne := h.single hsingle
      dsimp only at hsingle ⊢
      omega
    · exact hblocks.2.trans h.blocks.1
    · dsimp only
      rw [length_reads, length_nil]
      omega
    · have hzero := congrArg List.length hnil
      rw [length_reads, length_nil] at hzero
      omega
    · dsimp only at hnot
      rw [hlisten] at hnot
      cases hnot
  | counts payload events hev hout hcount hnext =>
    have hlisten := h.listening_of_events (by rw [hev]; exact cons_ne_nil _ _)
    obtain ⟨hcomps, hdropped, hround, hcounter⟩ := h.listens hlisten
    obtain ⟨offset, hchain, hplace⟩ := h.chain
    subst hnext
    have hopen : Open file.length { load with
        events := events, bytes := load.bytes ++ payload, available := load.available + 1,
        counter := load.counter + 1 } → Open file.length load := fun hnone =>
      ⟨hlisten, by rw [hev, outcome_cons_of_none hout]; exact hnone.2⟩
    refine ⟨⟨offset, hchain, fun hwhole hnone => ?_⟩, ?_, h.single, h.blocks,
      fun _ => ⟨hcomps, hdropped, ?_, ?_⟩, fun hyes hnone => h.broken hyes (hopen hnone),
      fun hnot => ?_⟩
    · rw [hplace hwhole (hopen hnone)]
      unfold read
      dsimp only
      rw [hev, contents, append_assoc]
    · dsimp only
      rw [hev, ← singleton_append, payloads_append, payloads_payload] at hbufs
      omega
    · dsimp only
      rw [hev, length_cons] at hround
      omega
    · dsimp only
      omega
    · dsimp only at hnot
      rw [hlisten] at hnot
      cases hnot

theorem Rounds.step {action : LoadAction} (h : load.Rounds size file.length total)
    (hsize : 0 < size)
    (hstep : load.step size file action = some next) : next.Rounds size file.length total := by
  cases action with
  | completed count => exact h.completed hsize hstep
  | canceled => exact h.canceled hstep
  | deliver => exact h.deliver hstep

/-! ### What a load comes to -/

/-- A listener has decided, or it is open. -/
theorem Rounds.open_or_decided (h : load.Rounds size stat total) :
    Open stat load ∨ ∃ result, Decided stat load result := by
  by_cases hlisten : load.listening = true
  · cases hout : outcome stat load.bytes load.events with
    | none => exact .inl ⟨hlisten, hout⟩
    | some result =>
      refine .inr ⟨result, ?_⟩
      unfold Decided
      rwa [if_pos hlisten]
  · obtain ⟨-, result, hres⟩ := h.done (eq_false_of_ne_true hlisten)
    refine .inr ⟨result, ?_⟩
    unfold Decided
    rwa [if_neg hlisten]

theorem Decided.not_open {result : Uint8List} (h : Decided stat load result) : ¬Open stat load := by
  rintro ⟨hlisten, hnone⟩
  unfold Decided at h
  rw [if_pos hlisten, hnone] at h
  cases h

theorem Decided.unique {result other : Uint8List} (h : Decided stat load result)
    (hother : Decided stat load other) : result = other := by
  unfold Decided at h hother
  split_ifs at h hother with hlisten
  · exact Option.some.inj (h.symm.trans hother)
  · rw [h] at hother
    cases hother
    rfl

/-- Where the next read of an open load is. -/
theorem Rounds.first_eq (h : load.Rounds size stat total) {first : FileRead} {rest : List FileRead}
    (hflight : load.inflight = first :: rest) (hbroken : load.broken = false)
    (hopen : Open stat load) :
    first = transportRead (load.offset + load.read.length) (decide (0 < rest.length)) := by
  obtain ⟨offset, hchain, hplace⟩ := h.chain
  rw [hflight, hplace hbroken hopen] at hchain
  exact (reads_of_cons hchain).1

/-- Once there is nothing left to do, the load has completed. -/
theorem Rounds.completions_of_settled (h : load.Rounds size stat total) (hsettled : load.Settled) :
    load.listening = false ∧ ∃ result, load.completions = [.bytes result] := by
  by_cases hlisten : load.listening = true
  · obtain ⟨-, -, hround, hcounter⟩ := h.listens hlisten
    rw [hsettled.1, hsettled.2, length_nil, length_nil] at hround
    omega
  · have hnot := eq_false_of_ne_true hlisten
    exact ⟨hnot, (h.done hnot).2⟩

theorem offset_submit (reads : List FileRead) (load : Load) :
    (load.submit reads).offset = load.offset := by
  unfold submit
  split_ifs <;> rfl

/-- What every step keeps. -/
structure Kept (stat : ℕ) (load next : Load) : Prop where
  offset : next.offset = load.offset
  decided : ∀ result, Decided stat load result → Decided stat next result

theorem step_of_completed (h : load.step size file (.completed count) = some next) :
    Kept file.length load next := by
  obtain ⟨first, rest, -, -, -, rfl⟩ := step_completed h
  unfold notifyPayload
  refine ⟨by split_ifs <;> rfl, fun result hres => ?_⟩
  unfold Decided at hres ⊢
  dsimp only
  split_ifs at hres ⊢ with hlisten
  · exact outcome_append_of_some hres _
  · exact hres

/-- An open load takes what is read, and is decided by nothing and by the last of it. -/
theorem open_completed (h : load.step size file (.completed count) = some next)
    (hopen : Open file.length load) :
    ∃ first rest, load.inflight = first :: rest ∧ load.broken = false ∧
      Legal size file.length first.offset count ∧ next.inflight = rest ∧
      next.broken = (first.linked && count < size) ∧ next.events.length = load.events.length + 1 ∧
      (count = 0 → Decided file.length next load.read) ∧
      (0 < count → load.read.length + count = file.length →
        Decided file.length next (load.read ++ pread file first.offset count)) ∧
      (0 < count → load.read.length + count ≠ file.length →
        Open file.length next ∧ next.read = load.read ++ pread file first.offset count) := by
  obtain ⟨first, rest, hflight, hbroken, hlegal, rfl⟩ := step_completed h
  have hlen := length_of_legal hlegal
  have hnext : notifyPayload (pread file first.offset count)
      { load with inflight := rest, broken := first.linked && count < size } =
        { load with
          inflight := rest, broken := first.linked && count < size,
          events := load.events ++ [.payload (pread file first.offset count)] } := if_pos hopen.1
  have hout := outcome_append_of_none hopen.2 [.payload (pread file first.offset count)]
  rw [outcome_payload] at hout
  rw [hnext]
  refine ⟨first, rest, hflight, hbroken, hlegal, rfl, rfl, length_append, fun hzero => ?_,
    fun hpos hall => ?_, fun hpos hall => ⟨⟨hopen.1, ?_⟩, read_append_payload _ load⟩⟩
  · unfold Decided
    rw [if_pos (length_eq_zero_iff.mp (hlen.trans hzero))] at hout
    rw [if_pos hopen.1]
    exact hout
  · unfold Decided
    have hne : pread file first.offset count ≠ [] := by
      rw [← length_pos_iff, hlen]
      exact hpos
    have hlast : (load.bytes ++ contents load.events ++ pread file first.offset count).length =
        file.length := by
      rw [length_append, hlen]
      exact hall
    rw [if_neg hne, if_pos hlast] at hout
    rw [if_pos hopen.1]
    exact hout
  · have hne : pread file first.offset count ≠ [] := by
      rw [← length_pos_iff, hlen]
      exact hpos
    have hlast : (load.bytes ++ contents load.events ++ pread file first.offset count).length ≠
        file.length := by
      rw [length_append, hlen]
      exact hall
    rw [if_neg hne, if_neg hlast] at hout
    exact hout

theorem step_of_canceled (h : load.step size file .canceled = some next) : Kept stat load next := by
  obtain ⟨first, rest, -, -, rfl⟩ := step_canceled h
  refine ⟨rfl, fun result hres => ?_⟩
  unfold Decided at hres ⊢
  unfold notifyCanceled
  dsimp only
  split_ifs at hres ⊢ with hlisten
  · exact outcome_append_of_some hres _
  · exact hres

/-- A cancelled read ends an open load. -/
theorem open_canceled (h : load.step size file .canceled = some next) (hopen : Open stat load) :
    ∃ first, load.inflight = first :: next.inflight ∧ load.broken = true ∧
      next.events.length = load.events.length + 1 ∧ Decided stat next load.read := by
  obtain ⟨first, rest, hflight, hbroken, rfl⟩ := step_canceled h
  have hout := outcome_append_of_none hopen.2 [.canceled]
  unfold notifyCanceled
  refine ⟨first, hflight, hbroken, ?_, ?_⟩
  · dsimp only
    rw [if_pos hopen.1, length_append, length_singleton]
  · unfold Decided
    dsimp only
    rw [if_pos hopen.1, if_pos hopen.1]
    exact hout

theorem step_of_delivery (h : Delivery size stat load next) (hround : load.Rounds size stat total) :
    Kept stat load next := by
  cases h with
  | completes event events result hev hres hnext =>
    have hlisten := hround.listening_of_events (by rw [hev]; exact cons_ne_nil _ _)
    subst hnext
    refine ⟨rfl, fun other hother => ?_⟩
    obtain ⟨hcomps, -, -, -⟩ := hround.listens hlisten
    unfold Decided at hother ⊢
    unfold complete
    rw [if_pos hlisten, hev, outcome_cons_of_some hres] at hother
    rw [if_neg (by simp), hcomps, ← Option.some.inj hother]
    rfl
  | starts payload events blocksCount hev hout hblocks hcount hnext =>
    have hlisten := hround.listening_of_events (by rw [hev]; exact cons_ne_nil _ _)
    obtain ⟨-, hrest⟩ := hround.over hev hcount
    refine ⟨by rw [hnext, offset_submit], fun other hother => ?_⟩
    -- Nothing was decided.
    unfold Decided at hother
    rw [if_pos hlisten, hev, outcome_cons_of_none hout, hrest] at hother
    cases hother
  | counts payload events hev hout hcount hnext =>
    subst hnext
    refine ⟨rfl, fun other hother => ?_⟩
    unfold Decided at hother ⊢
    dsimp only
    rwa [hev, outcome_cons_of_none hout] at hother

/-- A delivery leaves an open load open. -/
theorem open_delivery (h : Delivery size stat load next) (hround : load.Rounds size stat total)
    (hopen : Open stat load) :
    Open stat next ∧ next.read = load.read ∧ next.broken = load.broken ∧
      ∃ payload events, load.events = .payload payload :: events ∧ next.events = events ∧
        next.inflight.length ≤ load.inflight.length + total := by
  have hnone := hopen.2
  cases h with
  | completes event events result hev hres hnext =>
    rw [hev, outcome_cons_of_some hres] at hnone
    cases hnone
  | starts payload events blocksCount hev hout hblocks hcount hnext =>
    have hsame : next.listening = load.listening ∧ next.bytes = load.bytes ++ payload ∧
        next.events = events ∧ next.broken = load.broken ∧
          next.inflight.length ≤ load.inflight.length + blocksCount := by
      rw [hnext]
      unfold submit
      split_ifs
      · simp
      · simp
    obtain ⟨hlisten, hbytes, hev', hbroken, hlen⟩ := hsame
    refine ⟨⟨hlisten.trans hopen.1, ?_⟩, ?_, hbroken, payload, events, hev, hev', ?_⟩
    · rw [hbytes, hev', ← outcome_cons_of_none hout, ← hev]
      exact hnone
    · unfold read
      rw [hbytes, hev', hev, contents, append_assoc]
    · have hle := hround.blocks.1
      omega
  | counts payload events hev hout hcount hnext =>
    subst hnext
    rw [hev, outcome_cons_of_none hout] at hnone
    refine ⟨⟨hopen.1, hnone⟩, ?_, rfl, payload, events, hev, rfl, Nat.le_add_right _ _⟩
    unfold read
    dsimp only
    rw [hev, contents, append_assoc]

theorem Rounds.step_kept {action : LoadAction} (h : load.Rounds size file.length total)
    (hstep : load.step size file action = some next) : Kept file.length load next := by
  cases action with
  | completed count => exact step_of_completed hstep
  | canceled => exact step_of_canceled hstep
  | deliver => exact step_of_delivery (h.delivery hstep) h

end Load

end FengShui.Transport
