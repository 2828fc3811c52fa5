import FengShui.Transport.LoadedFile

/-!
# The buffers of a load (`transport/file/provider.dart`, `transport/file/file.dart`)

Nobody takes what comes behind the payload with which a load completes: it stays in its buffer,
which is not released. `buffers_iff` says of every load that has completed whether its buffers are
back.
-/

namespace FengShui.Transport

open FengShui.FileBytes FengShui.Transition TransportFileChannel

/-- How many payloads are behind the event that decides. -/
def behind (stat : ℕ) : Uint8List → List FileEvent → ℕ
  | _, [] => 0
  | _, .canceled :: events => Load.payloads events
  | bytes, .payload payload :: events =>
    if payload = [] then Load.payloads events
    else if (bytes ++ payload).length = stat then Load.payloads events
    else behind stat (bytes ++ payload) events

section

variable {stat : ℕ} {bytes : Uint8List} {events : List FileEvent}

/-- As long as nothing is decided, nothing is behind it. -/
theorem behind_of_none (h : outcome stat bytes events = none) : behind stat bytes events = 0 := by
  induction events generalizing bytes with
  | nil => rfl
  | cons event events ih =>
    cases event with
    | canceled => cases h
    | payload payload =>
      unfold outcome at h
      split_ifs at h with hempty hall
      rw [behind, if_neg hempty, if_neg hall, ih h]

/-- The event that decides has nothing behind it. -/
theorem behind_concat_of_none (h : outcome stat bytes events = none) (event : FileEvent) :
    behind stat bytes (events ++ [event]) = 0 := by
  induction events generalizing bytes with
  | nil =>
    cases event with
    | canceled => rfl
    | payload payload =>
      rw [List.nil_append, behind]
      split_ifs <;> rfl
  | cons first events ih =>
    cases first with
    | canceled => cases h
    | payload payload =>
      unfold outcome at h
      split_ifs at h with hempty hall
      rw [List.cons_append, behind, if_neg hempty, if_neg hall, ih h]

/-- What is added to what is decided is behind it. -/
theorem behind_append_of_some {result : Uint8List} (h : outcome stat bytes events = some result)
    (more : List FileEvent) :
    behind stat bytes (events ++ more) = behind stat bytes events + Load.payloads more := by
  induction events generalizing bytes with
  | nil => cases h
  | cons event events ih =>
    cases event with
    | canceled => exact payloads_append events more
    | payload payload =>
      unfold outcome at h
      rw [List.cons_append, behind, behind]
      split_ifs at h ⊢ with hempty hall
      · exact payloads_append events more
      · exact payloads_append events more
      · exact ih h

theorem behind_cons_of_none {payload : Uint8List} (h : outcome stat bytes [.payload payload] = none)
    (events : List FileEvent) :
    behind stat bytes (.payload payload :: events) = behind stat (bytes ++ payload) events := by
  rw [outcome_payload] at h
  split_ifs at h with hempty hall
  rw [behind, if_neg hempty, if_neg hall]

theorem behind_cons_of_some {event : FileEvent} {result : Uint8List}
    (h : outcome stat bytes [event] = some result) (events : List FileEvent) :
    behind stat bytes (event :: events) = Load.payloads events := by
  have hcons := behind_append_of_some h events
  rwa [← List.nil_append [event], behind_concat_of_none rfl, Nat.zero_add] at hcons

end

namespace Load

variable {size stat : ℕ} {file : Uint8List} {load next : Load} {total offset : ℕ}

/-- The payloads that nobody takes. -/
def lost (stat : ℕ) (load : Load) : ℕ :=
  load.dropped + if load.listening = true then behind stat load.bytes load.events else 0

/-- The read that brings the last byte is short, or no reads are linked to it. -/
def Tight (size stat : ℕ) (load : Load) : LoadAction → Prop
  | .completed count =>
    Open stat load → ∀ first ∈ load.inflight.head?,
      ¬(first.linked = true ∧ count = size ∧ load.read.length + count = stat)
  | _ => True

instance (size stat : ℕ) (load : Load) : ∀ action, Decidable (Tight size stat load action)
  | .completed count => inferInstanceAs (Decidable (Open stat load → ∀ first ∈ load.inflight.head?,
      ¬(first.linked = true ∧ count = size ∧ load.read.length + count = stat)))
  | .canceled | .deliver => .isTrue trivial

/-! ## What is lost in a step -/

theorem lost_of_open (h : load.Rounds size stat total) (hopen : Open stat load) :
    load.lost stat = 0 := by
  obtain ⟨-, hdropped, -, -⟩ := h.listens hopen.1
  unfold lost
  rw [hdropped, if_pos hopen.1, behind_of_none hopen.2]

/-- The read that decides is not lost. -/
theorem lost_completed_of_open {count : ℕ} (h : load.Rounds size file.length total)
    (hopen : Open file.length load) (hstep : load.step size file (.completed count) = some next) :
    next.lost file.length = 0 := by
  obtain ⟨first, rest, -, -, -, rfl⟩ := step_completed hstep
  obtain ⟨-, hdropped, -, -⟩ := h.listens hopen.1
  unfold notifyPayload lost
  rw [if_pos hopen.1]
  dsimp only
  rw [hdropped, if_pos hopen.1, behind_concat_of_none hopen.2]

/-- A read behind the decision is lost. -/
theorem lost_completed_of_decided {count : ℕ} {result : Uint8List}
    (hdec : Decided file.length load result)
    (hstep : load.step size file (.completed count) = some next) :
    next.lost file.length = load.lost file.length + 1 := by
  obtain ⟨first, rest, -, -, -, rfl⟩ := step_completed hstep
  unfold notifyPayload lost
  unfold Decided at hdec
  dsimp only
  split_ifs at hdec ⊢ with hlisten
  · rw [behind_append_of_some hdec]
    rfl
  · rfl

/-- A cancelled read is not lost. -/
theorem lost_canceled (h : load.Rounds size stat total)
    (hstep : load.step size file .canceled = some next) : next.lost stat = load.lost stat := by
  rcases h.open_or_decided with hopen | ⟨result, hdec⟩
  · obtain ⟨first, rest, -, -, rfl⟩ := step_canceled hstep
    rw [lost_of_open h hopen]
    obtain ⟨-, hdropped, -, -⟩ := h.listens hopen.1
    unfold notifyCanceled lost
    dsimp only
    rw [hdropped, if_pos hopen.1, if_pos hopen.1, behind_concat_of_none hopen.2]
  · obtain ⟨first, rest, -, -, rfl⟩ := step_canceled hstep
    unfold notifyCanceled lost
    unfold Decided at hdec
    dsimp only
    split_ifs at hdec ⊢ with hlisten
    · rw [behind_append_of_some hdec]
      rfl
    · rfl

/-- What the cancellation of the subscription drops was lost before. -/
theorem lost_delivery (h : Delivery size stat load next) (hround : load.Rounds size stat total) :
    next.lost stat = load.lost stat := by
  have hlisten (event : FileEvent) (events : List FileEvent) (hev : load.events = event :: events) :
      load.listening = true :=
    hround.listening_of_events (by rw [hev]; exact List.cons_ne_nil _ _)
  cases h with
  | completes event events result hev hres hnext =>
    rw [hnext]
    unfold complete lost
    dsimp only
    rw [if_pos (hlisten _ _ hev), hev, behind_cons_of_some hres, if_neg (by decide),
      Nat.add_zero]
  | starts payload events blocksCount hev hout hblocks hcount hnext =>
    obtain ⟨-, rfl⟩ := hround.over hev hcount
    have hsame : next.listening = load.listening ∧ next.events = [] ∧
        next.dropped = load.dropped := by
      rw [hnext]
      unfold submit
      split_ifs
      · exact ⟨rfl, rfl, rfl⟩
      · exact ⟨rfl, rfl, rfl⟩
    obtain ⟨hsame, hnone, hdropped⟩ := hsame
    unfold lost
    rw [hsame, hnone, hdropped, if_pos (hlisten _ _ hev), if_pos (hlisten _ _ hev),
      hev, behind_cons_of_none hout, behind, behind]
  | counts payload events hev hout hcount hnext =>
    rw [hnext]
    unfold lost
    dsimp only
    rw [if_pos (hlisten _ _ hev), if_pos (hlisten _ _ hev), hev,
      behind_cons_of_none hout]

/-- A delivery of a load that is decided starts no reads. -/
theorem inflight_delivery {result : Uint8List} (h : Delivery size stat load next)
    (hround : load.Rounds size stat total) (hdec : Decided stat load result) :
    next.inflight = load.inflight ∧ next.broken = load.broken := by
  cases h with
  | completes event events result hev hres hnext =>
    rw [hnext]
    exact ⟨rfl, rfl⟩
  | starts payload events blocksCount hev hout hblocks hcount hnext =>
    have hlisten := hround.listening_of_events (by rw [hev]; exact List.cons_ne_nil _ _)
    obtain ⟨-, rfl⟩ := hround.over hev hcount
    refine absurd ⟨hlisten, ?_⟩ hdec.not_open
    rw [hev]
    exact hout
  | counts payload events hev hout hcount hnext =>
    rw [hnext]
    exact ⟨rfl, rfl⟩

/-! ## Loads that lose nothing -/

/-- Nothing is lost, and nothing will be: once it is decided, the reads that are left are
cancelled. -/
structure Lossless (stat : ℕ) (load : Load) : Prop where
  none : load.lost stat = 0
  decided : ∀ result, Decided stat load result → load.broken = true ∨ load.inflight = []

variable {action : LoadAction}

theorem Lossless.step (h : load.Lossless file.length)
    (hround : load.Rounds size file.length total) (hsize : 0 < size)
    (htight : Tight size file.length load action) (hstep : load.step size file action = some next) :
    next.Lossless file.length := by
  cases action with
  | completed count =>
    obtain ⟨other, others, hothers, hwhole, -, -⟩ := step_completed hstep
    have hopen : Open file.length load := by
      rcases hround.open_or_decided with hopen | ⟨result, hdec⟩
      · exact hopen
      · rcases h.decided result hdec with hyes | hnil
        · rw [hwhole] at hyes
          cases hyes
        · rw [hothers] at hnil
          cases hnil
    refine ⟨lost_completed_of_open hround hopen hstep, fun result hdec => ?_⟩
    obtain ⟨first, rest, hflight, hbroken, hlegal, hrest, hbroken', -, -, -, hmore⟩ :=
      open_completed hstep hopen
    have hlinked := hround.first_eq hflight hbroken hopen
    by_cases hlast : rest = []
    · exact .inr (hrest.trans hlast)
    · have hyes : first.linked = true := by
        rw [hlinked]
        exact decide_eq_true (List.length_pos_iff.mpr hlast)
      -- The read is short.
      have hshort : count < size := by
        have hnot := htight hopen first (by rw [hflight]; rfl)
        unfold Legal at hlegal
        by_contra hfull
        have hcount : count = size := by split_ifs at hlegal <;> omega
        have hend : load.read.length + count ≠ file.length := fun hend => hnot ⟨hyes, hcount, hend⟩
        exact hdec.not_open (hmore (by omega) hend).1
      refine .inl ?_
      rw [hbroken', hyes, decide_eq_true hshort]
      rfl
  | canceled =>
    refine ⟨(lost_canceled hround hstep).trans h.none, fun result hdec => ?_⟩
    obtain ⟨first, rest, hflight, hbroken, hnext⟩ := step_canceled hstep
    obtain ⟨offset, hchain, -⟩ := hround.chain
    rw [hflight] at hchain
    obtain ⟨hfirst, -⟩ := reads_of_cons hchain
    by_cases hlast : rest = []
    · refine .inr ?_
      rw [hnext]
      exact hlast
    · refine .inl ?_
      rw [hnext, hfirst]
      exact decide_eq_true (List.length_pos_iff.mpr hlast)
  | deliver =>
    have hdelivery := hround.delivery hstep
    refine ⟨(lost_delivery hdelivery hround).trans h.none, fun result hdec => ?_⟩
    rcases hround.open_or_decided with hopen | ⟨other, hother⟩
    · exact absurd (open_delivery hdelivery hround hopen).1 hdec.not_open
    · obtain ⟨hflight, hbroken⟩ := inflight_delivery hdelivery hround hother
      rw [hflight, hbroken]
      exact h.decided other hother

/-! ## Loads that lose a buffer -/

/-- A payload is lost, or will be. -/
def Lossy (stat : ℕ) (load : Load) : Prop :=
  (∃ result, Decided stat load result) ∧
    (0 < load.lost stat ∨ load.broken = false ∧ load.inflight ≠ [])

theorem Lossy.step (h : load.Lossy file.length) (hround : load.Rounds size file.length total)
    (hstep : load.step size file action = some next) : next.Lossy file.length := by
  obtain ⟨⟨result, hdec⟩, hlossy⟩ := h
  refine ⟨⟨result, (hround.step_kept hstep).decided result hdec⟩, ?_⟩
  cases action with
  | completed count =>
    rw [lost_completed_of_decided hdec hstep]
    exact .inl (Nat.succ_pos _)
  | canceled =>
    rw [lost_canceled hround hstep]
    obtain ⟨first, rest, -, hbroken, -⟩ := step_canceled hstep
    rcases hlossy with hlost | ⟨hwhole, -⟩
    · exact .inl hlost
    · rw [hbroken] at hwhole
      cases hwhole
  | deliver =>
    have hdelivery := hround.delivery hstep
    obtain ⟨hflight, hbroken⟩ := inflight_delivery hdelivery hround hdec
    rw [lost_delivery hdelivery hround, hflight, hbroken]
    exact hlossy

/-- A full read that ends the file in front of linked reads. -/
theorem lossy_of_not_tight (hsize : 0 < size) (htight : ¬Tight size file.length load action)
    (hstep : load.step size file action = some next) (hround : load.Rounds size file.length total) :
    next.Lossy file.length := by
  cases action with
  | completed count =>
    unfold Tight at htight
    push Not at htight
    obtain ⟨hopen, first, hfirst, hlinked, hcount, hend⟩ := htight
    obtain ⟨other, rest, hflight, hbroken, -, hrest, hbroken', -, -, hall, -⟩ :=
      open_completed hstep hopen
    rw [hflight] at hfirst
    obtain rfl : other = first := Option.some.inj hfirst
    refine ⟨⟨_, hall (by omega) hend⟩, .inr ⟨?_, ?_⟩⟩
    · rw [hbroken', hcount, decide_eq_false (lt_irrefl size), Bool.and_false]
    · -- Others are linked to it.
      rw [hround.first_eq hflight hbroken hopen] at hlinked
      rw [hrest]
      exact List.length_pos_iff.mp (of_decide_eq_true hlinked)
  | canceled => exact absurd trivial htight
  | deliver => exact absurd trivial htight

/-! ## Every load -/

variable {blocksCount available : ℕ} {actions : List LoadAction}

theorem lossless_of_run (hsize : 0 < size) (hpos : 0 < blocksCount)
    (havail : blocksCount ≤ available)
    (halong : Along (Load.step size file) (Tight size file.length)
      (start size false blocksCount offset available) actions)
    (hrun : run (Load.step size file) (start size false blocksCount offset available) actions =
      some load) : load.Rounds size file.length available ∧ load.Lossless file.length := by
  refine run_induction (fun _ state => state.Rounds size file.length available ∧
    state.Lossless file.length) ?_ ?_ halong hrun
  · rintro history state action next ⟨hround, hlossless⟩ htight hstep
    exact ⟨hround.step hsize hstep, hlossless.step hround hsize htight hstep⟩
  · have hround := rounds_start size file.length offset hpos havail
    have hopen : Open file.length (start size false blocksCount offset available) := by
      rw [start_of_le size offset havail]
      exact ⟨rfl, rfl⟩
    exact ⟨hround, lost_of_open hround hopen, fun result hres => absurd hopen hres.not_open⟩

/-- For every load and every legal sequence of completions: once the future and the reads have
completed, all buffers are back if and only if no full read has brought the last byte in front of
reads that are linked to it. -/
theorem buffers_iff (hsize : 0 < size) (hpos : 0 < blocksCount) {listened : Bool}
    (hrun : run (Load.step size file) (start size listened blocksCount offset available) actions =
      some load) (hcompletions : load.completions ≠ []) (hinflight : load.inflight = []) :
    load.available = available ↔ Along (Load.step size file) (Tight size file.length)
      (start size listened blocksCount offset available) actions := by
  by_cases hstarted : listened = false ∧ blocksCount ≤ available
  · obtain ⟨rfl, havailable⟩ := hstarted
    have hround := rounds_of_run hsize hpos havailable hrun
    have hlistening : load.listening = false := by
      refine eq_false_of_ne_true fun hyes => ?_
      exact hcompletions (hround.listens hyes).1
    obtain ⟨hevents, -⟩ := hround.done hlistening
    have hbuffers := hround.buffers
    have hlost : load.lost file.length = load.dropped := by
      unfold lost
      rw [hlistening, if_neg (by decide), Nat.add_zero]
    rw [hinflight, hevents, payloads_nil, List.length_nil, ← hlost] at hbuffers
    constructor
    · intro hback
      by_contra halong
      obtain ⟨front, action, back, state, rfl, -, hstate, htight⟩ := exists_of_not_along halong
      obtain ⟨next, hstep⟩ := exists_step_of_run hrun hstate
      have hround' := rounds_of_run hsize hpos havailable hstate
      have hlossy := lossy_of_not_tight hsize htight hstep hround'
      rw [run_append_of_run hstate, run_cons, hstep, Option.bind_some] at hrun
      obtain ⟨-, -, hlast⟩ := run_invariant
        (fun state => state.Rounds size file.length available ∧ state.Lossy file.length)
        (fun _ _ _ hinv hnext => ⟨hinv.1.step hsize hnext, hinv.2.step hinv.1 hnext⟩)
        ⟨hround'.step hsize hstep, hlossy⟩ hrun
      rcases hlast with hpositive | ⟨-, hmore⟩
      · omega
      · exact hmore hinflight
    · intro halong
      have hzero := (lossless_of_run hsize hpos havailable halong hrun).2.none
      omega
  · obtain ⟨hsettled, hnever⟩ := settled_start size offset hstarted
    obtain ⟨rfl, rfl⟩ := run_of_settled hsettled hrun
    refine iff_of_true ?_ trivial
    cases listened with
    | true => rfl
    | false => exact absurd hnever hcompletions

/-- A file of six bytes, in rounds of two buffers of four: the second read is short, and the
last. -/
theorem buffers_iff_short :
    ∃ load, run (Load.step 4 [0, 1, 2, 3, 4, 5]) (start 4 false 2 0 10)
        [.completed 4, .completed 2, .deliver, .deliver] = some load ∧ load.available = 10 := by
  have hrun : run (Load.step 4 [0, 1, 2, 3, 4, 5]) (start 4 false 2 0 10)
      [.completed 4, .completed 2, .deliver, .deliver] = some _ := rfl
  exact ⟨_, hrun,
    (buffers_iff (by decide) (by decide) hrun (List.cons_ne_nil _ _) rfl).mpr (by decide)⟩

/-- A file of eight bytes, in rounds of three buffers of four: the second read ends the file, and
what the third one brings, which is nothing, stays in its buffer. -/
theorem not_buffers :
    ¬∀ (size blocksCount offset available : ℕ) (file : Uint8List) (actions : List LoadAction)
      (load : Load), 0 < size → 0 < blocksCount →
        run (Load.step size file) (start size false blocksCount offset available) actions =
          some load →
          load.completions ≠ [] → load.inflight = [] → load.available = available := by
  intro h
  have hback := h 4 3 0 10 [0, 1, 2, 3, 4, 5, 6, 7]
    [.completed 4, .completed 4, .completed 0, .deliver, .deliver] _ (by decide) (by decide) rfl
    (List.cons_ne_nil _ _) rfl
  exact absurd hback (by decide)

end Load

end FengShui.Transport
