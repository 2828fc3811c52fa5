import FengShui.Reactive.Buffer
import Mathlib.Data.List.Chain

/-!
# Frames put together to chunks

`ReactiveRequesterBuffer` keeps the frames that wait as chunks, with the index of the last chunk and
the number of the frames beside them. `Grouping` says how frames lie in chunks: as consecutive
groups, none of them empty, a group of several frames within the chunk size, and each group closed
by a frame that did not fit. `add` extends a grouping by its frame, so that one stands behind every
sequence of `add` and `clear`.
-/

namespace FengShui.Reactive.ReactiveRequesterBuffer

open List

/-- A call of the buffer. -/
inductive BufferCall where
  | add (frame : Uint8List)
  | clear
  deriving DecidableEq, Repr

def perform (buffer : ReactiveRequesterBuffer) : BufferCall → ReactiveRequesterBuffer
  | .add frame => buffer.add frame
  | .clear => buffer.clear

/-- The frames that were added since the last `clear`. -/
def framesSinceClear (calls : List BufferCall) : List Uint8List :=
  calls.foldl (fun frames call =>
    match call with
    | .add frame => frames ++ [frame]
    | .clear => []) []

/-- The first frame of the second group does not fit behind the first group. -/
def Overflows (chunkSize : ℤ) (first second : List Uint8List) : Prop :=
  ∀ frame ∈ second.head?, chunkSize < frame.length + first.flatten.length

/-- The frames lie in the chunks as these groups: group number `i` makes chunk number `i`. -/
structure Grouping (chunkSize : ℤ) (frames chunks : List Uint8List)
    (groups : List (List Uint8List)) :
    Prop where
  frames_eq : groups.flatten = frames
  chunks_eq : groups.map List.flatten = chunks
  nonempty : ∀ group ∈ groups, group ≠ []
  single : ∀ group ∈ groups, chunkSize < group.flatten.length → group.length = 1
  overflows : groups.IsChain (Overflows chunkSize)

/-- What the buffer says of the frames since the last `clear`. -/
structure Coalesced (frames : List Uint8List) (buffer : ReactiveRequesterBuffer) : Prop where
  concatenation : buffer.chunks.flatten = frames.flatten
  count : buffer.count = frames.length
  grouping : ∃ groups, Grouping buffer.chunkSize frames buffer.chunks groups

variable {chunkSize : ℤ} {frames chunks : List Uint8List} {groups : List (List Uint8List)}
  {frame : Uint8List}

/-! ## The three cases of `add` -/

theorem grouping_nil (chunkSize : ℤ) : Grouping chunkSize [] [] [] where
  frames_eq := rfl
  chunks_eq := rfl
  nonempty := nofun
  single := nofun
  overflows := .nil

/-- Where the frame does not fit into the last chunk, or there is none, it makes a chunk of its
own. -/
theorem Grouping.start (h : Grouping chunkSize frames chunks groups)
    (hlast : ∀ group ∈ groups.getLast?, Overflows chunkSize group [frame]) :
    Grouping chunkSize (frames ++ [frame]) (chunks ++ [frame]) (groups ++ [[frame]]) where
  frames_eq := by rw [flatten_append, h.frames_eq, flatten_singleton]
  chunks_eq := by rw [map_append, h.chunks_eq, map_singleton, flatten_singleton]
  nonempty := by
    intro group hmem
    rcases mem_append.mp hmem with hmem | hmem
    · exact h.nonempty group hmem
    · rw [mem_singleton.mp hmem]
      exact cons_ne_nil frame []
  single := by
    intro group hmem hlong
    rcases mem_append.mp hmem with hmem | hmem
    · exact h.single group hmem hlong
    · rw [mem_singleton.mp hmem, length_singleton]
  overflows := by
    apply h.overflows.append (.singleton _)
    intro last hlast' first hfirst
    obtain rfl : [frame] = first := Option.some.inj hfirst
    exact hlast last hlast'

/-- Where it fits, it goes behind the frames of the last chunk. -/
theorem Grouping.extend {group : List Uint8List} {chunk : Uint8List}
    (h : Grouping chunkSize frames (chunks ++ [chunk]) (groups ++ [group]))
    (hfits : (frame.length : ℤ) + chunk.length ≤ chunkSize) :
    Grouping chunkSize (frames ++ [frame]) (chunks ++ [chunk ++ frame])
      (groups ++ [group ++ [frame]]) := by
  have hchunks : groups.map List.flatten = chunks ∧ group.flatten = chunk := by
    have heq := h.chunks_eq
    rw [map_append, map_singleton] at heq
    obtain ⟨hfront, hback⟩ := append_inj' heq rfl
    exact ⟨hfront, (List.cons.inj hback).1⟩
  obtain ⟨hfront, hback⟩ := hchunks
  constructor
  · have hframes := h.frames_eq
    rw [flatten_append, flatten_singleton] at hframes
    rw [flatten_append, flatten_singleton, ← append_assoc, hframes]
  · rw [map_append, hfront, map_singleton, flatten_append, hback, flatten_singleton]
  · intro other hmem
    rcases mem_append.mp hmem with hmem | hmem
    · exact h.nonempty other (mem_append_left _ hmem)
    · rw [mem_singleton.mp hmem]
      exact append_ne_nil_of_right_ne_nil group (cons_ne_nil frame [])
  · intro other hmem hlong
    rcases mem_append.mp hmem with hmem | hmem
    · exact h.single other (mem_append_left _ hmem) hlong
    · -- The chunk that grew is within the chunk size.
      rw [mem_singleton.mp hmem, flatten_append, hback, flatten_singleton,
        length_append] at hlong
      omega
  · -- The first frame of the group stays the same, and only the last group grows.
    have hchain := isChain_append.mp h.overflows
    apply hchain.1.append (.singleton _)
    intro last hlast first hfirst
    obtain rfl : group ++ [frame] = first := Option.some.inj hfirst
    have hgroup : group ≠ [] := h.nonempty group (mem_append_right _ (mem_singleton_self group))
    have hover : Overflows chunkSize last group := hchain.2.2 last hlast group rfl
    intro head hhead
    rw [head?_append_of_ne_nil _ hgroup] at hhead
    exact hover head hhead

/-- `add` extends the grouping of the chunks by its frame. -/
theorem exists_grouping_add (buffer : ReactiveRequesterBuffer) (frame : Uint8List)
    (h : ∃ groups, Grouping buffer.chunkSize frames buffer.chunks groups) :
    ∃ groups, Grouping buffer.chunkSize (frames ++ [frame]) (buffer.add frame).chunks groups := by
  obtain ⟨groups, hgrouping⟩ := h
  by_cases hempty : buffer.chunks = []
  · -- There is no chunk yet.
    have hgroups : groups = [] := map_eq_nil_iff.mp (hgrouping.chunks_eq.trans hempty)
    have hchunks : (buffer.add frame).chunks = buffer.chunks ++ [frame] := by
      rw [add, dif_pos hempty, hempty, nil_append]
    rw [hchunks]
    exact ⟨groups ++ [[frame]], hgrouping.start (by rw [hgroups]; intro group hmem; cases hmem)⟩
  · obtain ⟨front, chunk, hchunks⟩ := (eq_nil_or_concat' buffer.chunks).resolve_left hempty
    have hlast : buffer.last = front.length := by
      rw [buffer.last_eq, hchunks, length_append, length_singleton, Nat.add_sub_cancel]
    have hget : buffer.chunks.get ⟨buffer.last, buffer.last_lt hempty⟩ = chunk := by
      simp [hlast, hchunks]
    by_cases hfits : (frame.length : ℤ) + chunk.length ≤ buffer.chunkSize
    · have hadd : (buffer.add frame).chunks = front ++ [chunk ++ frame] := by
        rw [add, dif_neg hempty]
        dsimp only
        rw [if_pos (by rw [hget]; exact hfits)]
        dsimp only
        rw [hget, hlast, hchunks, set_append_right _ _ le_rfl, Nat.sub_self, set_cons_zero]
      rw [hadd]
      rw [hchunks] at hgrouping
      obtain ⟨groups, group, rfl⟩ := (eq_nil_or_concat' groups).resolve_left (by
        rintro rfl
        exact append_ne_nil_of_right_ne_nil front (cons_ne_nil chunk []) hgrouping.chunks_eq.symm)
      exact ⟨_, hgrouping.extend hfits⟩
    · have hadd : (buffer.add frame).chunks = buffer.chunks ++ [frame] := by
        rw [add, dif_neg hempty]
        dsimp only
        rw [if_neg (by rw [hget]; exact hfits)]
      rw [hadd]
      refine ⟨groups ++ [[frame]], hgrouping.start fun group hgroup head hhead => ?_⟩
      -- The last group is the last chunk.
      obtain rfl : frame = head := Option.some.inj hhead
      have hchunk : buffer.chunks.getLast? = some group.flatten := by
        rw [← hgrouping.chunks_eq, getLast?_map, Option.mem_def.mp hgroup, Option.map_some]
      rw [hchunks, getLast?_concat] at hchunk
      rw [← Option.some.inj hchunk]
      omega

theorem chunkSize_foldl_perform (calls : List BufferCall) (buffer : ReactiveRequesterBuffer) :
    (calls.foldl perform buffer).chunkSize = buffer.chunkSize := by
  induction calls generalizing buffer with
  | nil => rfl
  | cons call calls ih =>
    rw [foldl_cons, ih]
    cases call with
    | add frame => exact buffer.chunkSize_add frame
    | clear => rfl

/-! ## Calls one after the other -/

theorem Coalesced.add {buffer : ReactiveRequesterBuffer} (h : Coalesced frames buffer)
    (frame : Uint8List) : Coalesced (frames ++ [frame]) (buffer.add frame) where
  concatenation := by
    rw [flatten_add, h.concatenation, flatten_append, flatten_singleton]
  count := by rw [count_add, h.count, length_append, length_singleton]
  grouping := by
    rw [chunkSize_add]
    exact exists_grouping_add buffer frame h.grouping

theorem coalesced_clear (buffer : ReactiveRequesterBuffer) : Coalesced [] buffer.clear :=
  ⟨rfl, rfl, [], grouping_nil buffer.clear.chunkSize⟩

/-- After any calls, the chunks are the frames since the last `clear`, put together as far as the
chunk size allows. -/
theorem coalesced_run (chunkSize : ℤ) (calls : List BufferCall) :
    Coalesced (framesSinceClear calls) (calls.foldl perform (new chunkSize)) ∧
      (calls.foldl perform (new chunkSize)).chunkSize = chunkSize := by
  refine ⟨?_, chunkSize_foldl_perform calls (new chunkSize)⟩
  induction calls using List.reverseRecOn with
  | nil => exact ⟨rfl, rfl, [], grouping_nil chunkSize⟩
  | append_singleton calls call ih =>
    rw [framesSinceClear, List.foldl_concat, List.foldl_concat]
    cases call with
    | add frame => exact ih.add frame
    | clear => exact coalesced_clear _

/-- A frame that fits goes behind the last one, one that does not starts a chunk. -/
example : (([.add [1, 2], .add [3], .add [4, 5]] : List BufferCall).foldl perform (new 3)).chunks =
    [[1, 2, 3], [4, 5]] := by decide

end FengShui.Reactive.ReactiveRequesterBuffer
