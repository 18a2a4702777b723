import Rosette.Proto.Canonical

/-! # Framing

The reader takes four bytes for the length, refuses a length over the ceiling, and only
then makes a buffer and fills it. Read back to back, the frames of a stream come out as
they went in, and a stream that is cut yields the frames that are complete before the
cut and then an error.
-/
namespace Rosette.Proto
open Foundation List

/-- A stream as its reader sees it: what is still to come, how many bytes have been taken and
how large a buffer has been made for them. -/
structure Reader where
  unread : List UInt8
  taken : ℕ
  buffered : ℕ
deriving DecidableEq

namespace Reader
variable {α : Type}

/-- Take `n` bytes. A stream that ends before has been taken to its end. -/
def readExact (r : Reader) (n : ℕ) : Option (List UInt8) × Reader :=
  if r.unread.length < n then
    (none, { r with unread := [], taken := r.taken + r.unread.length })
  else (some (r.unread.take n),
    { r with unread := r.unread.drop n, taken := r.taken + n })

def readFrame (c : Codec α) (r : Reader) : Except ReadFrameError α × Reader :=
  match r.readExact 4 with
  | (none, r) => (.error .closed, r)
  | (some head, r) =>
    let len := Codec.leValue head
    if 2 * maxMessageSize < len then (.error (.tooLarge len), r)
    else
      let r := { r with buffered := r.buffered + len }
      match r.readExact len with
      | (none, r) => (.error .io, r)
      | (some buf, r) =>
        match decodeFrom c buf with
        | none => (.error .decode, r)
        | some a => (.ok a, r)

/-- The reader returns what the stream says it should, and goes on behind the frame. -/
theorem readFrame_eq (c : Codec α) (r : Reader) :
    (r.readFrame c).1 = (Proto.readFrame c r.unread).map Prod.fst ∧
      ∀ a rest, Proto.readFrame c r.unread = .ok (a, rest) → (r.readFrame c).2.unread = rest := by
  unfold readFrame Proto.readFrame Codec.le
  by_cases hshort : r.unread.length < 4
  · simp [readExact, hshort, Except.map]
  · simp only [readExact, hshort]
    by_cases hbig : 2 * maxMessageSize < Codec.leValue (r.unread.take 4)
    · simp [hbig, Except.map]
    · simp only [hbig, if_false]
      by_cases hbody : (r.unread.drop 4).length < Codec.leValue (r.unread.take 4)
      · rw [if_pos hbody, if_pos hbody]
        exact ⟨rfl, by rintro a rest ⟨⟩⟩
      · rw [if_neg hbody, if_neg hbody]
        dsimp only
        cases decodeFrom c ((r.unread.drop 4).take (Codec.leValue (r.unread.take 4))) with
        | none => exact ⟨rfl, by rintro a rest ⟨⟩⟩
        | some =>
          refine ⟨rfl, fun a' rest h => ?_⟩
          cases h
          rfl

theorem readFrame_tooLarge (c : Codec α) (r : Reader) {len : ℕ} {body : List UInt8}
    (hlen : len < 2 ^ 32) (hbig : 2 * maxMessageSize < len)
    (h : r.unread = (Codec.le 4).encode len ++ body) :
    r.readFrame c = (.error (.tooLarge len), ⟨body, r.taken + 4, r.buffered⟩) := by
  have hhead : ((Codec.le 4).encode len).length = 4 := Codec.leBytes_length 4 len
  have hread : r.readExact 4 =
      (some ((Codec.le 4).encode len), ⟨body, r.taken + 4, r.buffered⟩) := by
    unfold readExact
    rw [h, if_neg (by simp [hhead]), take_left' hhead, drop_left' hhead]
  have hvalue : Codec.leValue ((Codec.le 4).encode len) = len :=
    Codec.leValue_leBytes 4 len (by omega)
  unfold readFrame
  rw [hread]
  dsimp only
  rw [hvalue, if_pos hbig]

end Reader

section Stream
variable {α : Type} {c : Codec α} {a : α} {frames : List α} {fuel : ℕ}

theorem length_writeFrame (c : Codec α) (a : α) :
    (writeFrame c a).length = 4 + (c.encode a).length := by
  rw [writeFrame, length_append]
  exact congrArg (· + _) (Codec.leBytes_length 4 _)

/-- A frame that may be sent. -/
structure Sendable (c : Codec α) (a : α) : Prop where
  valid : c.valid a
  size : (c.encode a).length ≤ 2 * maxMessageSize

theorem Sendable.decode_length (h : Sendable c a) (rest : List UInt8) :
    (Codec.le 4).decode (writeFrame c a ++ rest) =
      some ((c.encode a).length, c.encode a ++ rest) := by
  refine (Codec.le 4).decode_encode _ _ ?_
  have hsize := h.size
  change _ < 256 ^ 4
  unfold maxMessageSize at hsize
  omega

theorem Sendable.read (h : Sendable c a) (rest : List UInt8) :
    readFrame c (writeFrame c a ++ rest) = .ok (a, rest) := by
  have hbig : ¬ 2 * maxMessageSize < (c.encode a).length := not_lt.mpr h.size
  have hbody : ¬ (c.encode a ++ rest).length < (c.encode a).length := by simp
  unfold readFrame
  rw [h.decode_length rest]
  dsimp only
  rw [if_neg hbig, if_neg hbody, take_left' rfl, drop_left' rfl, decodeFrom]
  have hd := c.decode_encode a [] h.valid
  rw [append_nil] at hd
  rw [hd]
  rfl

theorem Sendable.read_cut (h : Sendable c a) {n : ℕ} (hn : n < (writeFrame c a).length) :
    readFrame c ((writeFrame c a).take n) = .error .closed ∨
      readFrame c ((writeFrame c a).take n) = .error .io := by
  have hlen := length_writeFrame c a
  unfold readFrame
  by_cases hhead : n < 4
  · left
    have hnone : (Codec.le 4).decode ((writeFrame c a).take n) = none := by
      refine if_pos ?_
      rw [length_take]
      omega
    rw [hnone]
  · right
    have htake : (writeFrame c a).take n =
        (Codec.le 4).encode (c.encode a).length ++ (c.encode a).take (n - 4) := by
      have hlength : ((Codec.le 4).encode (c.encode a).length).length = 4 :=
        Codec.leBytes_length 4 _
      rw [writeFrame, take_append, hlength, take_of_length_le (by omega)]
    have hvalid : (Codec.le 4).valid (c.encode a).length := by
      have hsize := h.size
      change _ < 256 ^ 4
      unfold maxMessageSize at hsize
      omega
    rw [htake, (Codec.le 4).decode_encode _ _ hvalid]
    dsimp only
    rw [if_neg (not_lt.mpr h.size), if_pos]
    rw [length_take]
    omega

/-- Calls of the reader one after the other, until one fails. -/
def readFrames (c : Codec α) : ℕ → List UInt8 → List α × Option ReadFrameError
  | 0, _ => ([], none)
  | fuel + 1, stream =>
    match readFrame c stream with
    | .error e => ([], some e)
    | .ok (a, rest) => (a :: (readFrames c fuel rest).1, (readFrames c fuel rest).2)

theorem readFrames_of_error {stream : List UInt8} {e : ReadFrameError}
    (h : readFrame c stream = .error e) (fuel : ℕ) :
    readFrames c (fuel + 1) stream = ([], some e) := by
  rw [readFrames, h]

theorem Sendable.read_cons (h : Sendable c a) (fuel : ℕ) (rest : List UInt8) :
    readFrames c (fuel + 1) (writeFrame c a ++ rest) =
      (a :: (readFrames c fuel rest).1, (readFrames c fuel rest).2) := by
  rw [readFrames, h.read rest]

theorem readFrame_nil (c : Codec α) : readFrame c [] = .error .closed := rfl

theorem readFrames_writeFrames (h : ∀ a ∈ frames, Sendable c a) (hfuel : frames.length < fuel) :
    readFrames c fuel (frames.flatMap (writeFrame c)) = (frames, some .closed) := by
  induction frames generalizing fuel with
  | nil =>
    obtain ⟨fuel, rfl⟩ := Nat.exists_eq_add_one_of_ne_zero (Nat.ne_zero_of_lt hfuel)
    exact readFrames_of_error (readFrame_nil c) fuel
  | cons a frames ih =>
    obtain ⟨fuel, rfl⟩ := Nat.exists_eq_add_one_of_ne_zero (Nat.ne_zero_of_lt hfuel)
    rw [flatMap_cons, (h a mem_cons_self).read_cons,
      ih (fun b hb => h b (mem_cons_of_mem _ hb)) (by simpa using hfuel)]

/-- Cut anywhere, the stream yields the frames that are complete before the cut, and an error. -/
theorem readFrames_cut (h : ∀ a ∈ frames, Sendable c a) (hfuel : frames.length < fuel) (n : ℕ) :
    ∃ k e, readFrames c fuel ((frames.flatMap (writeFrame c)).take n) = (frames.take k, some e) ∧
      ((frames.take k).flatMap (writeFrame c)).length ≤ n ∧
      (k < frames.length → n < ((frames.take (k + 1)).flatMap (writeFrame c)).length) := by
  induction frames generalizing fuel n with
  | nil =>
    obtain ⟨fuel, rfl⟩ := Nat.exists_eq_add_one_of_ne_zero (Nat.ne_zero_of_lt hfuel)
    refine ⟨0, .closed, ?_, by simp, by simp⟩
    rw [flatMap_nil, take_nil]
    exact readFrames_of_error (readFrame_nil c) fuel
  | cons a frames ih =>
    obtain ⟨fuel, rfl⟩ := Nat.exists_eq_add_one_of_ne_zero (Nat.ne_zero_of_lt hfuel)
    have ha := h a mem_cons_self
    rw [flatMap_cons]
    by_cases hn : n < (writeFrame c a).length
    · -- the cut is in the first frame
      rw [take_append_of_le_length hn.le]
      rcases ha.read_cut hn with he | he
      · exact ⟨0, .closed, readFrames_of_error he fuel, by simp, fun _ => by simpa using hn⟩
      · exact ⟨0, .io, readFrames_of_error he fuel, by simp, fun _ => by simpa using hn⟩
    · obtain ⟨k, e, hread, hle, hlt⟩ := ih (fun b hb => h b (mem_cons_of_mem _ hb))
        (by simpa using hfuel) (n - (writeFrame c a).length)
      refine ⟨k + 1, e, ?_, ?_, ?_⟩
      · rw [take_append, take_of_length_le (by omega), ha.read_cons, hread, take_succ_cons]
      · rw [take_succ_cons, flatMap_cons, length_append]
        omega
      · intro hk
        have hnext := hlt (by simpa using hk)
        rw [take_succ_cons, flatMap_cons, length_append]
        omega

end Stream
end Rosette.Proto
