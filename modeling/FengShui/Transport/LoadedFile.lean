import FengShui.Transport.LoadInvariants
import Mathlib.Tactic.Linarith

/-!
# What a load completes with (`transport/file/provider.dart`)

`load_iff` says of every load that comes to an end when its future completes with the file from the
offset on, and that a load whose reads bring what they should comes to an end.
-/

namespace FengShui.Transport

open FengShui.FileBytes FengShui.Transition TransportFileChannel List

namespace Load

/-- A read brings what belongs behind what is there, and where others are linked to it, it is a full
one or the last of the file. -/
def Whole (size : ℕ) (file : Uint8List) (load : Load) : LoadAction → Prop
  | .completed count =>
    Open file.length load → ∀ first ∈ load.inflight.head?,
      pread file first.offset count = pread file (load.offset + load.read.length) count ∧
        (first.linked = true → count < size → load.offset + load.read.length + count = file.length)
  | _ => True

instance (stat : ℕ) (load : Load) : Decidable (Open stat load) :=
  inferInstanceAs (Decidable (load.listening = true ∧ outcome stat load.bytes load.events = none))

instance (size : ℕ) (file : Uint8List) (load : Load) :
    ∀ action, Decidable (Whole size file load action)
  | .completed count => inferInstanceAs (Decidable (Open file.length load →
      ∀ first ∈ load.inflight.head?,
        pread file first.offset count = pread file (load.offset + load.read.length) count ∧
          (first.linked = true → count < size →
            load.offset + load.read.length + count = file.length)))
  | .canceled | .deliver => .isTrue trivial

variable {size : ℕ} {file : Uint8List} {load next : Load} {total offset : ℕ}

/-! ## Loads whose reads are whole -/

/-- What is there is the front of what is to be read, and all of it where no more reads come. -/
structure Front (file : Uint8List) (offset : ℕ) (load : Load) : Prop where
  start : load.offset = offset
  front : Open file.length load → load.read ++ file.drop (offset + load.read.length) =
    file.drop offset ∧
    offset + load.read.length ≤ file.length ∧
      (load.broken = true → offset + load.read.length = file.length)
  decided : ∀ result, Decided file.length load result → result = file.drop offset

theorem eq_drop_of_length {bytes : Uint8List}
    (hfront : bytes ++ file.drop (offset + bytes.length) = file.drop offset)
    (hlen : offset + bytes.length = file.length) : bytes = file.drop offset := by
  rw [hlen, drop_length, append_nil] at hfront
  exact hfront

theorem length_of_whole {bytes : Uint8List}
    (hfront : bytes ++ file.drop (offset + bytes.length) = file.drop offset)
    (hlen : bytes.length = file.length) : bytes = file.drop offset := by
  have hsum := congrArg List.length hfront
  rw [length_append, length_drop, length_drop] at hsum
  have hnone : file.drop (offset + bytes.length) = [] := by
    rw [drop_eq_nil_iff]
    omega
  rw [hnone, append_nil] at hfront
  exact hfront

variable {result : Uint8List} {action : LoadAction}

/-- Once it is decided, the rest is of no account. -/
theorem front_of_decided (hstart : load.offset = offset) (hdec : Decided file.length load result)
    (hres : result = file.drop offset) : load.Front file offset :=
  ⟨hstart, fun hopen => absurd hopen hdec.not_open,
    fun _ hother => (hother.unique hdec).trans hres⟩

theorem Front.of_decided (h : load.Front file offset) (hkept : Kept file.length load next)
    (hres : Decided file.length load result) : next.Front file offset :=
  front_of_decided (hkept.offset.trans h.start) (hkept.decided result hres)
    (h.decided result hres)

theorem Front.completed {count : ℕ} (h : load.Front file offset)
    (hround : load.Rounds size file.length total) (hwhole : Whole size file load (.completed count))
    (hstep : load.step size file (.completed count) = some next) : next.Front file offset := by
  have hkept := step_of_completed hstep
  have hstart := hkept.offset.trans h.start
  rcases hround.open_or_decided with hopen | ⟨result, hres⟩
  · obtain ⟨first, rest, hflight, hbroken, hlegal, -, hbroken', -, hnone, hall, hmore⟩ :=
      open_completed hstep hopen
    obtain ⟨hbytes, hlinked⟩ := hwhole hopen first (by rw [hflight]; rfl)
    obtain ⟨hfront, hplace, -⟩ := h.front hopen
    have hlen := length_of_legal hlegal
    have hfirst : first.offset ≤ offset + load.read.length := by
      rw [hround.first_eq hflight hbroken hopen, ← h.start]
      exact Nat.mod_le _ _
    rw [h.start] at hbytes hlinked
    -- What is there behind the read.
    have hread : (load.read ++ pread file first.offset count).length =
        load.read.length + count := by
      rw [length_append, hlen]
    have hbehind : load.read ++ pread file first.offset count ++
        file.drop (offset + (load.read ++ pread file first.offset count).length) =
            file.drop offset := by
      rw [hread, append_assoc, hbytes]
      rw [hbytes] at hlen
      rw [pread_append file (offset + load.read.length) count (by omega)]
      exact hfront
    have hinside : offset + (load.read.length + count) ≤ file.length := by
      rw [hbytes, length_pread] at hlen
      omega
    rcases Nat.eq_zero_or_pos count with hzero | hpos
    · -- There is nothing behind a read of nothing.
      have hlast : offset + load.read.length = file.length := by
        unfold Legal at hlegal
        split_ifs at hlegal <;> omega
      exact front_of_decided hstart (hnone hzero) (eq_drop_of_length hfront hlast)
    by_cases hend : load.read.length + count = file.length
    · exact front_of_decided hstart (hall hpos hend) (length_of_whole hbehind (hread.trans hend))
    · obtain ⟨hopen', hread'⟩ := hmore hpos hend
      refine ⟨hstart, fun _ => ?_, fun result hres => absurd hopen' hres.not_open⟩
      rw [hread', hbroken']
      refine ⟨hbehind, by rw [hread]; exact hinside, fun hyes => ?_⟩
      rw [Bool.and_eq_true, decide_eq_true_eq] at hyes
      have hlast := hlinked hyes.1 hyes.2
      omega
  · exact h.of_decided hkept hres

theorem Front.step (h : load.Front file offset) (hround : load.Rounds size file.length total)
    (hwhole : Whole size file load action) (hstep : load.step size file action = some next) :
    next.Front file offset := by
  have hkept := hround.step_kept hstep
  have hstart := hkept.offset.trans h.start
  cases action with
  | completed count => exact h.completed hround hwhole hstep
  | canceled =>
    rcases hround.open_or_decided with hopen | ⟨result, hres⟩
    · obtain ⟨first, -, hbroken, -, hdec⟩ := open_canceled hstep hopen
      obtain ⟨hfront, -, hlast⟩ := h.front hopen
      exact front_of_decided hstart hdec (eq_drop_of_length hfront (hlast hbroken))
    · exact h.of_decided hkept hres
  | deliver =>
    rcases hround.open_or_decided with hopen | ⟨result, hres⟩
    · obtain ⟨hopen', hread, hbroken, -⟩ := open_delivery (hround.delivery hstep) hround hopen
      refine ⟨hstart, fun _ => ?_, fun result hres => absurd hopen' hres.not_open⟩
      rw [hread, hbroken]
      exact h.front hopen
    · exact h.of_decided hkept hres

theorem front_start (size : ℕ) {blocksCount available : ℕ} (havail : blocksCount ≤ available)
    (hoff : offset ≤ file.length) :
    (start size false blocksCount offset available).Front file offset := by
  rw [start_of_le size offset havail]
  refine ⟨rfl, fun _ => ⟨rfl, hoff, nofun⟩, fun result hres => ?_⟩
  cases hres

/-! ## How long a load takes -/

open Classical in
/-- A load is nearer to its end with every byte, every read and every event. -/
noncomputable def remaining (stat offset total : ℕ) (load : Load) : ℕ :=
  if Open stat load then
    (2 * total + 2) * (stat - offset - load.read.length) + 2 * load.inflight.length +
      (2 * total + 1) * load.events.length
  else 2 * load.inflight.length + load.events.length

theorem remaining_of_open (h : Open file.length load) :
    load.remaining file.length offset total =
      (2 * total + 2) * (file.length - offset - load.read.length) + 2 * load.inflight.length +
        (2 * total + 1) * load.events.length := if_pos h

theorem remaining_of_decided (h : Decided file.length load result) :
    load.remaining file.length offset total = 2 * load.inflight.length + load.events.length :=
  if_neg h.not_open

/-- Whatever is decided, a read and an event is one step each. -/
theorem le_remaining (load : Load) :
    2 * load.inflight.length + load.events.length ≤ load.remaining file.length offset total := by
  unfold remaining
  split_ifs
  · have hev : load.events.length ≤ (2 * total + 1) * load.events.length :=
      Nat.le_mul_of_pos_left _ (Nat.succ_pos _)
    omega
  · exact le_rfl

/-- Towards the end there are only the reads and the events that are there. -/
theorem Rounds.length_lt (h : load.Rounds size file.length total)
    (hstep : load.step size file action = some next) (hdec : Decided file.length next result) :
    2 * next.inflight.length + next.events.length <
      2 * load.inflight.length + load.events.length := by
  cases action with
  | completed count =>
    obtain ⟨first, rest, hflight, -, -, rfl⟩ := step_completed hstep
    rw [hflight, length_cons]
    unfold notifyPayload
    split_ifs
    · dsimp only
      rw [length_append, length_singleton]
      omega
    · dsimp only
      omega
  | canceled =>
    obtain ⟨first, rest, hflight, -, rfl⟩ := step_canceled hstep
    rw [hflight, length_cons]
    unfold notifyCanceled
    dsimp only
    split_ifs
    · rw [length_append, length_singleton]
      omega
    · omega
  | deliver =>
    have hdelivery := h.delivery hstep
    have hnot : ¬Open file.length load := fun hopen =>
      hdec.not_open (open_delivery hdelivery h hopen).1
    cases hdelivery with
    | completes event events result hev hres hnext =>
      rw [hnext, hev, length_cons]
      unfold complete
      dsimp only
      rw [length_nil]
      omega
    | starts payload events blocksCount hev hout hblocks hcount hnext =>
      have hlisten := h.listening_of_events (by rw [hev]; exact cons_ne_nil _ _)
      obtain ⟨-, rfl⟩ := h.over hev hcount
      exact absurd ⟨hlisten, by rw [hev]; exact hout⟩ hnot
    | counts payload events hev hout hcount hnext =>
      rw [hnext, hev, length_cons]
      dsimp only
      omega

theorem Front.remaining_lt (h : load.Front file offset)
    (hround : load.Rounds size file.length total) (hsize : 0 < size)
    (hwhole : Whole size file load action) (hstep : load.step size file action = some next) :
    next.remaining file.length offset total < load.remaining file.length offset total := by
  rcases (hround.step hsize hstep).open_or_decided with hnext | ⟨result, hnext⟩
  · have hopen : Open file.length load := by
      rcases hround.open_or_decided with hopen | ⟨result, hres⟩
      · exact hopen
      · exact absurd hnext ((hround.step_kept hstep).decided result hres).not_open
    obtain ⟨-, hinside, -⟩ := (h.step hround hwhole hstep).front hnext
    rw [remaining_of_open hnext, remaining_of_open hopen]
    cases action with
    | completed count =>
      obtain ⟨first, rest, hflight, -, hlegal, hrest, -, hev, hnone, hall, hmore⟩ :=
        open_completed hstep hopen
      have hpos : 0 < count := by
        by_contra hzero
        exact (hnone (by omega)).not_open hnext
      have hend : load.read.length + count ≠ file.length := fun hend =>
        (hall hpos hend).not_open hnext
      obtain ⟨-, hread⟩ := hmore hpos hend
      have hlen : next.read.length = load.read.length + count := by
        rw [hread, length_append, length_of_legal hlegal]
      have hless : (2 * total + 2) * (file.length - offset - next.read.length) + (2 * total + 2) ≤
          (2 * total + 2) * (file.length - offset - load.read.length) := by
        rw [← Nat.mul_succ]
        exact Nat.mul_le_mul_left _ (by omega)
      rw [hev, hrest, hflight, length_cons, Nat.mul_succ]
      omega
    | canceled =>
      obtain ⟨-, -, -, -, hdec⟩ := open_canceled hstep hopen
      exact absurd hnext hdec.not_open
    | deliver =>
      obtain ⟨-, hread, -, payload, events, hev, hev', hlen⟩ :=
        open_delivery (hround.delivery hstep) hround hopen
      rw [hread, hev', hev, length_cons, Nat.mul_succ]
      omega
  · rw [remaining_of_decided hnext]
    exact (hround.length_lt hstep hnext).trans_le (le_remaining load)

/-! ## What leads elsewhere -/

/-- Whatever comes, the load does not come to what has the property. -/
def Misses (good : Uint8List → Prop) (stat : ℕ) (load : Load) : Prop :=
  (Open stat load ∧ ((load.broken = true ∧ ¬good load.read) ∨ ∀ more, ¬good (load.read ++ more))) ∨
    ∃ result, Decided stat load result ∧ ¬good result

theorem Misses.step {good : Uint8List → Prop} (h : load.Misses good file.length)
    (hround : load.Rounds size file.length total) (hstep : load.step size file action = some next) :
    next.Misses good file.length := by
  rcases h with ⟨hopen, hmisses⟩ | ⟨result, hres, hgood⟩
  · have hnow : ¬good load.read := by
      rcases hmisses with ⟨-, hnow⟩ | hmore
      · exact hnow
      · have hnone := hmore []
        rwa [append_nil] at hnone
    cases action with
    | completed count =>
      obtain ⟨first, rest, -, hbroken, -, -, -, -, hnone, hall, hopen'⟩ :=
        open_completed hstep hopen
      rcases hmisses with ⟨hyes, -⟩ | hmore
      · rw [hbroken] at hyes
        cases hyes
      rcases Nat.eq_zero_or_pos count with hzero | hpos
      · exact .inr ⟨_, hnone hzero, hnow⟩
      by_cases hend : load.read.length + count = file.length
      · exact .inr ⟨_, hall hpos hend, hmore _⟩
      · obtain ⟨hnext, hread⟩ := hopen' hpos hend
        refine .inl ⟨hnext, .inr fun more => ?_⟩
        rw [hread, append_assoc]
        exact hmore _
    | canceled =>
      obtain ⟨-, -, -, -, hdec⟩ := open_canceled hstep hopen
      exact .inr ⟨_, hdec, hnow⟩
    | deliver =>
      obtain ⟨hnext, hread, hbroken, -⟩ := open_delivery (hround.delivery hstep) hround hopen
      refine .inl ⟨hnext, ?_⟩
      rw [hread, hbroken]
      exact hmisses
  · exact .inr ⟨result, (hround.step_kept hstep).decided result hres, hgood⟩

/-- A read that is not whole leads elsewhere. -/
theorem Front.misses (h : load.Front file offset) (hround : load.Rounds size file.length total)
    (hwhole : ¬Whole size file load action) (hstep : load.step size file action = some next) :
    next.Misses (· = file.drop offset) file.length := by
  cases action with
  | completed count =>
    unfold Whole at hwhole
    push Not at hwhole
    obtain ⟨hopen, first, hfirst, hviolated⟩ := hwhole
    obtain ⟨hfront, hplace, -⟩ := h.front hopen
    obtain ⟨other, rest, hflight, hbroken, hlegal, -, hbroken', -, -, hall, hmore⟩ :=
      open_completed hstep hopen
    rw [hflight] at hfirst
    obtain rfl : other = first := Option.some.inj hfirst
    have hlen := length_of_legal hlegal
    have hread : (load.read ++ pread file other.offset count).length =
        load.read.length + count := by
      rw [length_append, hlen]
    rw [h.start] at hviolated
    by_cases hbytes : pread file other.offset count = pread file (offset + load.read.length) count
    · -- The chain ends in front of the end of the file.
      obtain ⟨hlinked, hshort, hlast⟩ := hviolated hbytes
      have hle : other.offset ≤ offset + load.read.length := by
        rw [hround.first_eq hflight hbroken hopen, ← h.start]
        exact Nat.mod_le _ _
      have hpos : 0 < count := by
        unfold Legal at hlegal
        split_ifs at hlegal <;> omega
      have hinside : offset + load.read.length + count ≤ file.length := by
        rw [hbytes, length_pread] at hlen
        omega
      obtain ⟨hnext, hread'⟩ := hmore hpos (by omega)
      refine .inl ⟨hnext, .inl ⟨?_, fun hgood => ?_⟩⟩
      · rw [hbroken', hlinked, decide_eq_true hshort]
        rfl
      · have hsum := congrArg List.length (hread'.symm.trans hgood)
        rw [hread, length_drop] at hsum
        omega
    · -- Something else was read.
      have hgood (more : Uint8List) :
          load.read ++ pread file other.offset count ++ more ≠ file.drop offset := by
        intro heq
        rw [← hfront, append_assoc, append_cancel_left_eq] at heq
        have htake := congrArg (List.take count) heq
        rw [take_left' hlen] at htake
        exact hbytes htake
      have hpos : 0 < count := by
        by_contra hzero
        obtain rfl : count = 0 := by omega
        exact hbytes rfl
      by_cases hend : load.read.length + count = file.length
      · refine .inr ⟨_, hall hpos hend, ?_⟩
        have hnone := hgood []
        rwa [append_nil] at hnone
      · obtain ⟨hnext, hread'⟩ := hmore hpos hend
        refine .inl ⟨hnext, .inr fun more => ?_⟩
        rw [hread']
        exact hgood more
  | canceled => exact absurd trivial hwhole
  | deliver => exact absurd trivial hwhole

/-! ## Every load -/

/-- What has nothing in flight and nothing to deliver stays as it is. -/
theorem stuck_of_settled (h : load.Settled) (action : LoadAction) :
    load.step size file action = none := by
  cases action with
  | completed count =>
    unfold step
    rw [h.1]
  | canceled =>
    unfold step
    rw [h.1]
  | deliver =>
    unfold step
    rw [h.2]

theorem run_of_settled {actions : List LoadAction} (h : load.Settled)
    (hrun : run (Load.step size file) load actions = some next) : actions = [] ∧ next = load := by
  cases actions with
  | nil => exact ⟨rfl, (Option.some.inj hrun).symm⟩
  | cons action actions =>
    obtain ⟨middle, hstep, -⟩ := run_cons_eq_some.mp hrun
    rw [stuck_of_settled h] at hstep
    cases hstep

/-- There is always something that the kernel or the loop may do. -/
theorem exists_step (hsize : 0 < size) (h : ¬load.Settled) :
    ∃ action next, load.step size file action = some next := by
  unfold Settled at h
  cases hflight : load.inflight with
  | cons first rest =>
    by_cases hbroken : load.broken = true
    · refine ⟨.canceled, ?_⟩
      unfold step
      rw [hflight]
      exact ⟨_, if_pos hbroken⟩
    · refine ⟨.completed (min size (file.length - first.offset)), ?_⟩
      have hlegal :
          Legal size file.length first.offset (min size (file.length - first.offset)) := by
        unfold Legal
        split_ifs <;> omega
      unfold step
      rw [hflight]
      exact ⟨_, if_pos ⟨eq_false_of_ne_true hbroken, hlegal⟩⟩
  | nil =>
    cases hev : load.events with
    | nil => exact absurd ⟨hflight, hev⟩ h
    | cons event events =>
      refine ⟨.deliver, ?_⟩
      unfold step
      rw [hev]
      cases event with
      | payload bytes => exact ⟨_, rfl⟩
      | canceled => exact ⟨_, rfl⟩

variable {blocksCount available : ℕ} {actions : List LoadAction}

theorem rounds_of_run (hsize : 0 < size) (hpos : 0 < blocksCount) (havail : blocksCount ≤ available)
    (hrun : run (Load.step size file) (start size false blocksCount offset available) actions =
      some load) : load.Rounds size file.length available :=
  run_invariant (Rounds size file.length available)
    (fun _ _ _ hinv hstep => hinv.step hsize hstep)
    (rounds_start size file.length offset hpos havail) hrun

/-- As long as the reads are whole. -/
theorem front_of_run (hsize : 0 < size) (hpos : 0 < blocksCount) (havail : blocksCount ≤ available)
    (hoff : offset ≤ file.length)
    (halong : Along (Load.step size file) (Whole size file)
      (start size false blocksCount offset available) actions)
    (hrun : run (Load.step size file) (start size false blocksCount offset available) actions =
      some load) :
    load.Rounds size file.length available ∧ load.Front file offset ∧
      actions.length + load.remaining file.length offset available ≤
        (start size false blocksCount offset available).remaining file.length offset available := by
  refine run_induction (fun history state => state.Rounds size file.length available ∧
    state.Front file offset ∧ history.length + state.remaining file.length offset available ≤
      (start size false blocksCount offset available).remaining file.length offset available)
    ?_ ?_ halong hrun
  · rintro history state action next ⟨hround, hfront, hlen⟩ hwhole hstep
    refine ⟨hround.step hsize hstep, hfront.step hround hwhole hstep, ?_⟩
    have hless := hfront.remaining_lt hround hsize hwhole hstep
    rw [length_append, length_singleton]
    omega
  · refine ⟨rounds_start size file.length offset hpos havail,
      front_start size havail hoff, ?_⟩
    rw [length_nil, Nat.zero_add]

/-- A load that nobody can listen to, or for which there are no buffers, comes to nothing. -/
theorem settled_start (size offset : ℕ) {listened : Bool}
    (h : ¬(listened = false ∧ blocksCount ≤ available)) :
    (start size listened blocksCount offset available).Settled ∧
      (start size listened blocksCount offset available).completions =
        if listened = true then [.stateError] else [] := by
  cases listened with
  | true => exact ⟨⟨rfl, rfl⟩, rfl⟩
  | false =>
    have hroom : ¬blocksCount ≤ available := fun hle => h ⟨rfl, hle⟩
    have hstart : start size false blocksCount offset available =
        ⟨blocksCount = 1, offset, blocksCount, 0, [], true, [], [], false, [], 0, 0⟩ := by
      by_cases hone : blocksCount = 1
      · subst hone
        simp [start, readSingle, submit, hroom]
      · simp [start, readMany, submit, hone, hroom]
    rw [hstart]
    exact ⟨⟨rfl, rfl⟩, rfl⟩

theorem remaining_start_le (file : Uint8List) (size offset : ℕ) (havail : blocksCount ≤ available) :
    (start size false blocksCount offset available).remaining file.length offset available ≤
      (2 * available + 2) * (file.length - offset) + 2 * available := by
  rw [start_of_le size offset havail]
  unfold remaining read
  split_ifs
  · simp only [contents, append_nil, length_nil, length_reads, Nat.sub_zero]
    omega
  · simp only [length_nil, length_reads]
    omega

/-- For every load and every legal sequence of completions: it is never stuck, it comes to an end if
its reads are whole, and when it has come to an end its future has completed with the file from the
offset on, once, if and only if nobody has listened before, there are buffers for a round and the
reads were whole. -/
theorem load_iff (hsize : 0 < size) (hoffset : offset ≤ file.length) (hpos : 0 < blocksCount)
    {listened : Bool} (hrun : run (Load.step size file)
      (start size listened blocksCount offset available) actions = some load) :
    (load.Settled ∨ ∃ action next, load.step size file action = some next) ∧
    (listened = false ∧ blocksCount ≤ available ∧ Along (Load.step size file) (Whole size file)
        (start size listened blocksCount offset available) actions →
      actions.length ≤ (2 * available + 2) * (file.length - offset) + 2 * available) ∧
    (load.Settled → (load.completions = [.bytes (file.drop offset)] ↔
      listened = false ∧ blocksCount ≤ available ∧ Along (Load.step size file) (Whole size file)
        (start size listened blocksCount offset available) actions)) := by
  refine ⟨?_, ?_, fun hsettled => ⟨fun hbytes => ?_, ?_⟩⟩
  · by_cases hsettled : load.Settled
    · exact .inl hsettled
    · exact .inr (exists_step hsize hsettled)
  · rintro ⟨rfl, havailable, halong⟩
    obtain ⟨-, -, hlength⟩ := front_of_run hsize hpos havailable hoffset halong hrun
    have hle := remaining_start_le file size offset havailable
    omega
  · have hstarted : listened = false ∧ blocksCount ≤ available := by
      by_contra hnot
      obtain ⟨hstart, hnever⟩ := settled_start size offset hnot
      obtain ⟨-, rfl⟩ := run_of_settled hstart hrun
      rw [hnever] at hbytes
      split_ifs at hbytes
      cases hbytes
    obtain ⟨rfl, havailable⟩ := hstarted
    refine ⟨rfl, havailable, ?_⟩
    by_contra halong
    -- The first read that is not whole.
    obtain ⟨front, action, back, state, rfl, hfront, hstate, hwhole⟩ := exists_of_not_along halong
    obtain ⟨next, hstep⟩ := exists_step_of_run hrun hstate
    obtain ⟨hround, hfront', -⟩ := front_of_run hsize hpos havailable hoffset hfront hstate
    have hmisses := hfront'.misses hround hwhole hstep
    rw [run_append_of_run hstate, run_cons, hstep, Option.bind_some] at hrun
    obtain ⟨hround', hlast⟩ := run_invariant
      (fun state => state.Rounds size file.length available ∧
        state.Misses (· = file.drop offset) file.length)
      (fun _ _ _ hinv hnext => ⟨hinv.1.step hsize hnext, hinv.2.step hinv.1 hnext⟩)
      ⟨hround.step hsize hstep, hmisses⟩ hrun
    obtain ⟨hlistening, -⟩ := hround'.completions_of_settled hsettled
    rcases hlast with ⟨hopen, -⟩ | ⟨result, hresult, hbad⟩
    · cases hopen.1.symm.trans hlistening
    · unfold Decided at hresult
      rw [hlistening, hbytes] at hresult
      cases hresult
      exact hbad rfl
  · rintro ⟨rfl, havailable, halong⟩
    obtain ⟨hround, hfront, -⟩ := front_of_run hsize hpos havailable hoffset halong hrun
    obtain ⟨hlistening, result, hresult⟩ := hround.completions_of_settled hsettled
    have hdecided : Decided file.length load result := by
      unfold Decided
      rw [hlistening]
      exact hresult
    rw [hresult, hfront.decided result hdecided]

/-- A file of six bytes, in rounds of two buffers of four: the second read is short, and the
last. -/
theorem load_iff_short :
    ∃ load, run (Load.step 4 [0, 1, 2, 3, 4, 5]) (start 4 false 2 0 10)
        [.completed 4, .completed 2, .deliver, .deliver] = some load ∧
      load.completions = [.bytes [0, 1, 2, 3, 4, 5]] := by
  have hrun : run (Load.step 4 [0, 1, 2, 3, 4, 5]) (start 4 false 2 0 10)
      [.completed 4, .completed 2, .deliver, .deliver] = some _ := rfl
  have hiff := load_iff (by decide) (by decide) (by decide) hrun
  exact ⟨_, hrun, (hiff.2.2 ⟨rfl, rfl⟩).mpr ⟨rfl, by decide, by decide⟩⟩

/-- A file of eight bytes, in rounds of three buffers of four: the second read is short, the third
one is cancelled, and two bytes are missing. -/
theorem not_load :
    ¬∀ (size blocksCount offset available : ℕ) (listened : Bool) (file : Uint8List)
      (actions : List LoadAction) (load : Load), 0 < size → offset ≤ file.length → 0 < blocksCount →
        blocksCount ≤ available →
        run (Load.step size file) (start size listened blocksCount offset available) actions =
          some load → load.Settled → load.completions = [.bytes (file.drop offset)] := by
  intro h
  have hmissing := h 4 3 0 10 false [0, 1, 2, 3, 4, 5, 6, 7]
    [.completed 4, .completed 2, .canceled, .deliver, .deliver, .deliver] _ (by decide) (by decide)
    (by decide) (by decide) rfl ⟨rfl, rfl⟩
  exact absurd hmissing (by decide)

end Load

end FengShui.Transport
