import RemoteCall.Message.Pieces
import RemoteCall.Proofs.Message.Stream
import RemoteCall.Proofs.Data.Outcome

/-! A reader of frames stays in step with the stream, however its bytes are cut into pieces: what it
reads are the frames as they were sent, and what follows them is read as if nothing had come before.
-/
namespace RemoteCall.Stream
variable {n : Nat} {m : Malformed} {a t f lengths others : ByteArray}
  {pieces rest last frames : List ByteArray}

theorem size_joined_of_takeExact (h : takeExact n pieces = none) : (joined pieces).size < n := by
  induction pieces generalizing n with
  | nil =>
    rw [takeExact] at h
    split at h
    · cases h
    · rw [joined, ByteArray.size_empty]
      omega
  | cons piece rest ih =>
    rw [takeExact] at h
    split at h
    · cases h
    · have hrest := ih (Option.map_eq_none_iff.mp h)
      rw [joined, ByteArray.size_append]
      omega

/-- What is taken stands in front, and what is left stands behind it. -/
theorem joined_of_takeExact (h : takeExact n pieces = some (a, rest)) :
    a.size = n ∧ joined pieces = a ++ joined rest := by
  induction pieces generalizing n a rest with
  | nil =>
    rw [takeExact] at h
    split at h
    · rename_i hn
      obtain ⟨rfl, rfl⟩ := Prod.mk.inj (Option.some.inj h)
      exact ⟨hn.symm, rfl⟩
    · cases h
  | cons piece others ih =>
    rw [takeExact] at h
    split at h
    · rename_i hn
      obtain ⟨rfl, rfl⟩ := Prod.mk.inj (Option.some.inj h)
      rw [joined, joined, ← ByteArray.append_assoc, extract_append_rest, ByteArray.size_extract]
      exact ⟨by omega, rfl⟩
    · rename_i hn
      obtain ⟨x, htake, heq⟩ := Option.map_eq_some_iff.mp h
      obtain ⟨rfl, rfl⟩ := Prod.mk.inj heq
      obtain ⟨hsize, hjoined⟩ := ih htake
      rw [joined, hjoined, ByteArray.append_assoc, ByteArray.size_append]
      exact ⟨by omega, rfl⟩

theorem splitFrame_of_error (h : readFrame a 0 = .error m) : splitFrame a = .error m := by
  rw [splitFrame, h]
  rfl

/-- A frame that is all there is split off. -/
theorem splitFrame_append (h : IsFrame f) (hm : f.size ≤ maxFrame) :
    splitFrame (f ++ t) = .ok (f, t) := by
  rw [splitFrame, readFrame_append h, if_neg (Nat.not_lt.mpr hm)]
  change Except.ok (f, (f ++ t).extract f.size (f ++ t).size) = _
  rw [ByteArray.extract_append_eq_right rfl ByteArray.size_append]

theorem readExact_eq_ok (h : readExact n pieces = .ok (a, rest)) :
    a.size = n ∧ joined pieces = a ++ joined rest := by
  unfold readExact at h
  split at h
  · cases h
  · rename_i htake
    cases h
    exact joined_of_takeExact htake

theorem readExact_eq_error (h : readExact n pieces = .error m) :
    m = .ended ∧ (joined pieces).size < n := by
  unfold readExact at h
  split at h
  · rename_i htake
    cases h
    exact ⟨rfl, size_joined_of_takeExact htake⟩
  · cases h

/-- Reading takes one frame off the front, as many bytes as its two lengths say. -/
theorem begins_of_nextFrame (h : nextFrame pieces = .ok (f, rest)) :
    IsFrame f ∧ f.size ≤ maxFrame ∧ joined pieces = f ++ joined rest := by
  obtain ⟨⟨lengths, left⟩, hlengths, h⟩ := bind_eq_ok.mp h
  obtain ⟨hsize, hjoined⟩ := readExact_eq_ok hlengths
  dsimp only at h
  split at h
  · cases h
  split at h
  · cases h
  rename_i hhead hmax
  obtain ⟨⟨others, last⟩, hothers, h⟩ := bind_eq_ok.mp h
  obtain ⟨hsize', hjoined'⟩ := readExact_eq_ok hothers
  cases h
  have hheader : bigEndianAt (lengths ++ others) 0 4 = bigEndianAt lengths 0 4 :=
    bigEndianAt_append_left (by rw [hsize]; decide)
  have hbody : bigEndianAt (lengths ++ others) 4 4 = bigEndianAt lengths 4 4 :=
    bigEndianAt_append_left (by rw [hsize]; decide)
  simp only [lengthsSize, headSize] at hsize hsize' hhead
  have htotal : (lengths ++ others).size = bigEndianAt lengths 0 4 + bigEndianAt lengths 4 4 := by
    rw [ByteArray.size_append]
    omega
  refine ⟨⟨?_, ?_⟩, ?_, ?_⟩
  · rw [hheader, headSize]
    omega
  · rw [hheader, hbody, htotal]
  · rw [htotal]
    exact Nat.le_of_not_lt hmax
  · rw [hjoined, hjoined', ByteArray.append_assoc]

/-- Pieces are refused for the reason for which all their bytes are refused. -/
theorem readFrame_of_nextFrame (h : nextFrame pieces = .error m) :
    readFrame (joined pieces) 0 = .error m := by
  rcases bind_eq_error.mp h with hlengths | ⟨⟨lengths, left⟩, hlengths, h⟩
  · obtain ⟨rfl, hsize⟩ := readExact_eq_error hlengths
    exact if_pos ((Nat.zero_add lengthsSize).symm ▸ hsize)
  obtain ⟨hsize, hjoined⟩ := readExact_eq_ok hlengths
  have hheader : bigEndianAt (lengths ++ joined left) 0 4 = bigEndianAt lengths 0 4 :=
    bigEndianAt_append_left (by rw [hsize]; decide)
  have hbody : bigEndianAt (lengths ++ joined left) 4 4 = bigEndianAt lengths 4 4 :=
    bigEndianAt_append_left (by rw [hsize]; decide)
  have htotal : (lengths ++ joined left).size = lengthsSize + (joined left).size := by
    rw [ByteArray.size_append, hsize]
  simp only [hjoined, readFrame, Nat.zero_add, hheader, hbody]
  rw [if_neg (by omega)]
  dsimp only at h
  split at h
  · rename_i hhead
    cases h
    exact if_pos hhead
  rename_i hhead
  rw [if_neg hhead]
  split at h
  · rename_i hmax
    cases h
    exact if_pos hmax
  rename_i hmax
  rw [if_neg hmax]
  -- the frame is refused for its end only, which the pieces do not have
  rcases bind_eq_error.mp h with hothers | ⟨x, -, h⟩
  · obtain ⟨rfl, hsize'⟩ := readExact_eq_error hothers
    exact if_pos (by omega)
  · cases h

/-- However a stream is cut, the next frame is the one at its front, and all bytes behind it are
left. -/
theorem nextFrame_joined :
    (nextFrame pieces).map (fun x => (x.1, joined x.2)) = splitFrame (joined pieces) := by
  cases h : nextFrame pieces with
  | error m => exact (splitFrame_of_error (readFrame_of_nextFrame h)).symm
  | ok x =>
    obtain ⟨hframe, hmax, hjoined⟩ := begins_of_nextFrame h
    rw [hjoined, splitFrame_append hframe hmax]
    rfl

theorem nextFrame_of_error (h : readFrame (joined pieces) 0 = .error m) :
    nextFrame pieces = .error m := by
  cases hnext : nextFrame pieces with
  | error m' =>
    cases h.symm.trans (readFrame_of_nextFrame hnext)
    rfl
  | ok x =>
    obtain ⟨hframe, hmax, hjoined⟩ := begins_of_nextFrame hnext
    rw [hjoined, readFrame_append hframe, if_neg (Nat.not_lt.mpr hmax)] at h
    cases h

/-- From pieces the same frame is read as from all their bytes, and the same bytes are left. -/
theorem nextFrame_of_splitFrame (h : splitFrame (joined pieces) = .ok (f, t)) :
    ∃ rest, nextFrame pieces = .ok (f, rest) ∧ joined rest = t := by
  rw [← nextFrame_joined] at h
  cases hnext : nextFrame pieces with
  | error m =>
    rw [hnext] at h
    cases h
  | ok x =>
    rw [hnext] at h
    cases h
    exact ⟨x.2, rfl, rfl⟩

/-- Frames read one after the other, and the pieces that are left after the last of them. -/
inductive Reads : List ByteArray → List ByteArray → List ByteArray → Prop
  | nil (pieces : List ByteArray) : Reads pieces [] pieces
  | cons {f : ByteArray} {pieces rest frames last : List ByteArray}
    (hnext : nextFrame pieces = .ok (f, rest)) (hrest : Reads rest frames last) :
    Reads pieces (f :: frames) last

/-- The frames that were sent are read, and nothing behind them is touched. -/
theorem reads_frames (hframes : ∀ f ∈ frames, IsFrame f ∧ f.size ≤ maxFrame)
    (hpieces : joined pieces = joined frames ++ t) :
    ∃ last, Reads pieces frames last ∧ joined last = t := by
  induction frames generalizing pieces with
  | nil =>
    rw [joined, ByteArray.empty_append] at hpieces
    exact ⟨pieces, .nil pieces, hpieces⟩
  | cons f frames ih =>
    obtain ⟨hframe, hmax⟩ := hframes f List.mem_cons_self
    rw [joined, ByteArray.append_assoc] at hpieces
    obtain ⟨rest, hnext, hrest⟩ :=
      nextFrame_of_splitFrame ((congrArg splitFrame hpieces).trans (splitFrame_append hframe hmax))
    obtain ⟨last, hlast, hjoined⟩ := ih (fun g hg => hframes g (List.mem_cons_of_mem _ hg)) hrest
    exact ⟨last, .cons hnext hlast, hjoined⟩

/-- Reading goes on behind a frame as if nothing had come before. -/
theorem readAll_frame (h : IsFrame f) (hm : f.size ≤ maxFrame) :
    readAll (f ++ t) = (f :: (readAll t).1, (readAll t).2) := by
  have hr : readFrame (f ++ t) 0 = .ok (f, f.size) := by
    rw [readFrame_append h, if_neg (Nat.not_lt.mpr hm)]
  have hrest : readFrom (f ++ t) f.size = readAll t := @readFrom_append_right f t 0
  rw [readAll, readFrom_of_ok hr, hrest]

/-- Frames that were written one after the other are read back so. -/
theorem readAll_frames (hframes : ∀ f ∈ frames, IsFrame f ∧ f.size ≤ maxFrame) :
    readAll (joined frames ++ t) = (frames ++ (readAll t).1, (readAll t).2) := by
  induction frames with
  | nil => rw [joined, ByteArray.empty_append, List.nil_append]
  | cons f frames ih =>
    obtain ⟨hframe, hmax⟩ := hframes f List.mem_cons_self
    rw [joined, ByteArray.append_assoc, readAll_frame hframe hmax,
      ih fun g hg => hframes g (List.mem_cons_of_mem _ hg), List.cons_append]

/-- All frames of a stream are read, and then the fault that ends it is met. -/
theorem reads_readAll (pieces : List ByteArray) : ∃ last,
    Reads pieces (readAll (joined pieces)).1 last ∧
    nextFrame last = .error (readAll (joined pieces)).2 := by
  -- each frame leaves fewer bytes
  induction hn : (joined pieces).size using Nat.strongRecOn generalizing pieces with
  | ind n ih =>
    cases hnext : nextFrame pieces with
    | error m =>
      rw [readAll, readFrom_of_error (readFrame_of_nextFrame hnext)]
      exact ⟨pieces, .nil pieces, hnext⟩
    | ok x =>
      obtain ⟨f, rest⟩ := x
      obtain ⟨hframe, hmax, hjoined⟩ := begins_of_nextFrame hnext
      have hle := hframe.headSize_le_size
      have hlt : (joined rest).size < n := by
        rw [← hn, hjoined, ByteArray.size_append]
        simp only [headSize] at hle
        omega
      obtain ⟨last, hreads, hlast⟩ := ih _ hlt rest rfl
      rw [hjoined, readAll_frame hframe hmax]
      exact ⟨last, .cons hnext hreads, hlast⟩

/-- What stands where a stream ends too early: nothing, or the beginning of a frame. -/
def IsCutOff (t : ByteArray) : Prop :=
  t = .empty ∨ ∃ q, q ≠ .empty ∧ IsFrame (t ++ q) ∧ (t ++ q).size ≤ maxFrame

/-- A frame that is cut off ends the reading. -/
theorem readFrame_of_isCutOff (h : IsCutOff t) : readFrame t 0 = .error .ended := by
  rcases h with rfl | ⟨q, hq, hframe, hmax⟩
  · rfl
  cases hread : readFrame t 0 with
  | ok x => exact absurd (eq_of_readFrame hframe hread).2.2 hq
  | error m =>
    by_cases hm : m = .ended
    · rw [hm]
    -- any other fault would be one of the whole frame
    · have happend : readFrame (t ++ q) 0 = .error m := readFrame_append_of_error hread hm
      cases happend.symm.trans (readFrame_self hframe hmax)

/-- What is read from a place on is a frame, and the reading goes on right behind it. -/
theorem consumes_of_readFrame {stream : ByteArray} {start next : Nat}
    (h : readFrame stream start = .ok (f, next)) :
    IsFrame f ∧ next = start + f.size ∧ f = stream.extract start next := by
  obtain ⟨hstart, hnext⟩ := readFrame_lt h
  have hle : start ≤ stream.size := by omega
  have hsize : (stream.extract 0 start).size = start := by
    rw [ByteArray.size_extract]
    omega
  have hright := @readFrame_append_right (stream.extract 0 start)
    (stream.extract start stream.size) 0
  rw [extract_append_rest, hsize, Nat.add_zero, h] at hright
  cases hread : readFrame (stream.extract start stream.size) 0 with
  | error m =>
    rw [hread] at hright
    cases hright
  | ok x =>
    obtain ⟨g, n⟩ := x
    rw [hread] at hright
    obtain ⟨hframe, -, rfl, hbegin⟩ := begins_of_readFrame hread
    cases hright
    have hextract : (stream.extract start stream.size).extract 0 g.size = g := by
      rw [hbegin, ByteArray.extract_append_eq_left rfl]
    rw [ByteArray.extract_extract, Nat.add_zero, Nat.min_eq_left hnext] at hextract
    exact ⟨hframe, rfl, hextract.symm⟩

/-- Frames stay in step with the stream, and so does all that follows them, however the stream is
cut into pieces. A frame that is cut off is a fault of the peer. Each frame takes its own bytes and
no others, and so the reading of any stream ends. -/
theorem frames_in_step (frames : List ByteArray)
    (hframes : ∀ f ∈ frames, IsFrame f ∧ f.size ≤ maxFrame) (t : ByteArray) :
    readAll (joined frames ++ t) = (frames ++ (readAll t).1, (readAll t).2) ∧
    (∀ pieces, joined pieces = joined frames ++ t →
      ∃ rest, Reads pieces frames rest ∧ joined rest = t ∧
        (nextFrame rest).map (fun x => (x.1, joined x.2)) = splitFrame t ∧
        (IsCutOff t → ∃ m, nextFrame rest = .error m ∧ m.toError.kind = .protocol)) ∧
    (∀ stream start f next, readFrame stream start = .ok (f, next) →
      IsFrame f ∧ next = start + f.size ∧ f = stream.extract start next) ∧
    (∀ pieces f rest, nextFrame pieces = .ok (f, rest) →
      IsFrame f ∧ joined pieces = f ++ joined rest) ∧
    ∀ pieces, ∃ last, Reads pieces (readAll (joined pieces)).1 last ∧
      nextFrame last = .error (readAll (joined pieces)).2 := by
  refine ⟨readAll_frames hframes, fun pieces hpieces => ?_, fun stream start f next h =>
    consumes_of_readFrame h, fun pieces f rest h => ?_, reads_readAll⟩
  · obtain ⟨rest, hreads, hrest⟩ := reads_frames hframes hpieces
    exact ⟨rest, hreads, hrest, hrest ▸ nextFrame_joined,
      fun hcut => ⟨.ended, nextFrame_of_error (hrest ▸ readFrame_of_isCutOff hcut), rfl⟩⟩
  · obtain ⟨hframe, -, hjoined⟩ := begins_of_nextFrame h
    exact ⟨hframe, hjoined⟩

/-- Two frames come whole, and a third one is cut off inside its lengths. -/
theorem frames_in_step_cut_off :
    let f : ByteArray := ⟨#[0, 0, 0, 15, 0, 0, 0, 1, 0, 0, 0, 0, 0, 0, 0, 9]⟩
    let t := f.extract 0 5
    (∀ g ∈ [f, f], IsFrame g ∧ g.size ≤ maxFrame) ∧ IsCutOff t ∧
      ∀ pieces, joined pieces = joined [f, f] ++ t →
        ∃ rest, Reads pieces [f, f] rest ∧ joined rest = t ∧
          ∃ m, nextFrame rest = .error m ∧ m.toError.kind = .protocol := by
  intro f t
  have hframe : IsFrame f := ⟨by decide, by decide⟩
  have hframes : ∀ g ∈ [f, f], IsFrame g ∧ g.size ≤ maxFrame := by
    intro g hg
    rw [List.eq_of_mem_replicate (n := 2) hg]
    exact ⟨hframe, by decide⟩
  have hwhole : t ++ f.extract 5 f.size = f := extract_append_rest f 5
  have hcut : IsCutOff t := .inr ⟨f.extract 5 f.size, by decide, hwhole.symm ▸ hframe, by decide⟩
  refine ⟨hframes, hcut, fun pieces hpieces => ?_⟩
  obtain ⟨rest, hreads, hrest, -, hended⟩ := (frames_in_step [f, f] hframes t).2.1 pieces hpieces
  exact ⟨rest, hreads, hrest, hended hcut⟩

end RemoteCall.Stream
