/-
Texts and their bytes.

The bytes of a character are read back as that character, wherever they stand, and none of them
but the first can start a character.  So a text is read back from its bytes, and where the bytes
of one text start or end with those of another one, so do the texts:

* `exists_continuations` — the bytes of a character keep to the ranges of its start byte;
* `decode_encode` — bytes are read back;
* `encode_isPrefix_iff`, `encode_isSuffix_iff` — bytes at the start and at the end.
-/
import Graft.Proofs.Text.Utf8

namespace Graft.Utf8

@[simp] theorem encode_nil : encode [] = [] := rfl

theorem encode_cons (c : Char) (t : Text) :
    encode (c :: t) = String.utf8EncodeChar c ++ encode t := List.flatMap_cons

@[simp] theorem encode_append (a b : Text) : encode (a ++ b) = encode a ++ encode b :=
  List.flatMap_append

/-! ### Characters are told apart -/

/-- No bytes start with those of two characters. -/
theorem eq_of_encodeChar_append {c d : Char} {x y : List UInt8}
    (h : String.utf8EncodeChar c ++ x = String.utf8EncodeChar d ++ y) : c = d := by
  have hbytes := congrArg List.toByteArray h
  rw [List.toByteArray_append, List.toByteArray_append] at hbytes
  have hchar : ((String.utf8EncodeChar c).toByteArray ++ x.toByteArray).utf8DecodeChar? 0
      = some c := ByteArray.utf8DecodeChar?_utf8EncodeChar_append
  rw [hbytes, ByteArray.utf8DecodeChar?_utf8EncodeChar_append] at hchar
  exact (Option.some.inj hchar).symm

/-! ### Reading back -/

section Ranges

variable {s : UInt8}

theorem continuations?_one (hs : s.toNat < 0x80) : continuations? s = some [] := by
  rw [continuations?]
  exact if_pos hs

theorem continuations?_two (hs : 0xC2 ≤ s.toNat ∧ s.toNat < 0xE0) :
    continuations? s = some [(0x80, 0xBF)] := by
  simp only [continuations?, UInt8.lt_iff_toNat_lt, UInt8.reduceToNat]
  rw [if_neg (by omega), if_neg (by omega), if_pos (by omega)]

theorem continuations?_three (hs : 0xE0 ≤ s.toNat ∧ s.toNat < 0xF0) :
    continuations? s = some [(if s.toNat = 0xE0 then 0xA0 else 0x80,
      if s.toNat = 0xED then 0x9F else 0xBF), (0x80, 0xBF)] := by
  have hE0 : s = 0xE0 ↔ s.toNat = 0xE0 := UInt8.toNat_inj.symm
  have hED : s = 0xED ↔ s.toNat = 0xED := UInt8.toNat_inj.symm
  simp only [continuations?, UInt8.lt_iff_toNat_lt, hE0, hED, UInt8.reduceToNat]
  rw [if_neg (by omega), if_neg (by omega), if_neg (by omega)]
  by_cases hoverlong : s.toNat = 0xE0
  · rw [if_pos hoverlong, if_pos hoverlong, if_neg (by omega)]
  · by_cases hsurrogate : s.toNat = 0xED
    · rw [if_neg hoverlong, if_pos hsurrogate, if_neg hoverlong, if_pos hsurrogate]
    · rw [if_neg hoverlong, if_neg hsurrogate, if_pos (by omega), if_neg hoverlong,
        if_neg hsurrogate]

theorem continuations?_four (hs : 0xF0 ≤ s.toNat ∧ s.toNat ≤ 0xF4) :
    continuations? s = some [(if s.toNat = 0xF0 then 0x90 else 0x80,
      if s.toNat = 0xF4 then 0x8F else 0xBF), (0x80, 0xBF), (0x80, 0xBF)] := by
  have hE0 : s ≠ 0xE0 := fun h => by simp [h] at hs
  have hED : s ≠ 0xED := fun h => by simp [h] at hs
  have hF0 : s = 0xF0 ↔ s.toNat = 0xF0 := UInt8.toNat_inj.symm
  have hF4 : s = 0xF4 ↔ s.toNat = 0xF4 := UInt8.toNat_inj.symm
  simp only [continuations?, UInt8.lt_iff_toNat_lt, hE0, hED, hF0, hF4, UInt8.reduceToNat, if_false]
  rw [if_neg (by omega), if_neg (by omega), if_neg (by omega), if_neg (by omega)]
  by_cases hoverlong : s.toNat = 0xF0
  · rw [if_pos hoverlong, if_pos hoverlong, if_neg (by omega)]
  · by_cases hlast : s.toNat = 0xF4
    · rw [if_neg hoverlong, if_neg (by omega), if_pos hlast, if_neg hoverlong, if_pos hlast]
    · rw [if_neg hoverlong, if_pos (by omega), if_neg hoverlong, if_neg hlast]

end Ranges

theorem toNat_ofNat_byte {n : Nat} (h : n < 256) : (UInt8.ofNat n).toNat = n := by
  rw [UInt8.toNat_ofNat', Nat.mod_eq_of_lt h]

/-- A byte that is made from six bits continues a character. -/
theorem toNat_continuation (n : Nat) : (UInt8.ofNat (n % 64 + 128)).toNat = n % 64 + 128 :=
  toNat_ofNat_byte (by omega)

/-- The bytes of a character are a start byte and, in the ranges behind it, the others. -/
theorem exists_continuations (c : Char) : ∃ start following ranges,
    String.utf8EncodeChar c = start :: following ∧ continuations? start = some ranges
      ∧ Continues ranges following := by
  have hvalid : c.val.toNat < 0xD800 ∨ 0xDFFF < c.val.toNat ∧ c.val.toNat < 0x110000 := c.valid
  generalize hv : c.val.toNat = v at hvalid
  simp only [String.utf8EncodeChar, hv]
  split
  · exact ⟨_, _, _, rfl, continuations?_one (by rw [toNat_ofNat_byte] <;> omega), trivial⟩
  split
  · have hs : (UInt8.ofNat (v / 64 % 32 + 192)).toNat = v / 64 % 32 + 192 :=
      toNat_ofNat_byte (by omega)
    refine ⟨_, _, _, rfl, continuations?_two (by omega), ?_⟩
    simp only [Continues, toNat_continuation, UInt8.reduceToNat, and_true]
    omega
  split
  · have hs : (UInt8.ofNat (v / 4096 % 16 + 224)).toNat = v / 4096 % 16 + 224 :=
      toNat_ofNat_byte (by omega)
    refine ⟨_, _, _, rfl, continuations?_three (by omega), ?_⟩
    simp only [Continues, toNat_continuation, UInt8.reduceToNat, and_true, hs]
    refine ⟨?_, ?_, by omega⟩ <;> split <;> simp only [UInt8.reduceToNat] <;> omega
  · have hs : (UInt8.ofNat (v / 262144 % 8 + 240)).toNat = v / 262144 % 8 + 240 :=
      toNat_ofNat_byte (by omega)
    refine ⟨_, _, _, rfl, continuations?_four (by omega), ?_⟩
    simp only [Continues, toNat_continuation, UInt8.reduceToNat, and_true, hs]
    refine ⟨?_, ?_, by omega⟩ <;> split <;> simp only [UInt8.reduceToNat] <;> omega

theorem inOrder_append {ranges : List (UInt8 × UInt8)} {following : List UInt8}
    (h : Continues ranges following) (bs : List UInt8) :
    inOrder ranges (following ++ bs) = following.length ∧ following.length = ranges.length := by
  induction ranges generalizing following with
  | nil =>
    obtain rfl := eq_nil_of_continues h
    exact ⟨by rw [inOrder.eq_2 _ _ (by simp)]; rfl, rfl⟩
  | cons range ranges ih =>
    obtain ⟨b, rest, rfl, ⟨hlow, hhigh⟩, hrest⟩ := exists_of_continues h
    obtain ⟨horder, hlength⟩ := ih hrest
    refine ⟨?_, by rw [List.length_cons, hlength, List.length_cons]⟩
    rw [List.cons_append, inOrder, if_pos (by simpa [UInt8.le_iff_toNat_le] using ⟨hlow, hhigh⟩),
      horder, List.length_cons]

/-- The bytes of a character are read as that character. -/
theorem decodeFrom_encodeChar (position : Nat) (c : Char) (bs : List UInt8) :
    decodeFrom position (String.utf8EncodeChar c ++ bs)
      = (decodeFrom (position + (String.utf8EncodeChar c).length) bs).map (c :: ·) := by
  obtain ⟨start, following, ranges, hbytes, hranges, hcontinues⟩ := exists_continuations c
  obtain ⟨horder, hlength⟩ := inOrder_append hcontinues bs
  have hchar : assemble start following = c := by
    have hencode := encodeChar_assemble hranges hcontinues
    rw [← hbytes] at hencode
    exact eq_of_encodeChar_append (congrArg (· ++ []) hencode)
  rw [hbytes, List.cons_append, decodeFrom, hranges]
  dsimp only
  rw [horder, if_neg (by omega), List.take_left, List.drop_left, hchar, List.length_cons,
    Nat.add_assoc]

theorem decodeFrom_encode (t : Text) :
    ∀ position : Nat, decodeFrom position (encode t) = .ok t := by
  induction t with
  | nil => exact fun position => by rw [encode_nil, decodeFrom]
  | cons c t ih =>
    intro position
    rw [encode_cons, decodeFrom_encodeChar, ih]
    rfl

/-- A text is read back from its bytes. -/
theorem decode_encode (t : Text) : decode (encode t) = .ok t := decodeFrom_encode t 0

theorem encode_inj {a b : Text} (h : encode a = encode b) : a = b := by
  have hdecode := decode_encode a
  rw [h, decode_encode] at hdecode
  exact (Except.ok.inj hdecode).symm

/-! ### Bytes at the start and at the end -/

theorem encode_isPrefix_iff {a b : Text} : encode a <+: encode b ↔ a <+: b := by
  constructor
  · intro h
    induction a generalizing b with
    | nil => exact List.nil_prefix
    | cons c a ih =>
      obtain ⟨x, hx⟩ := h
      rw [encode_cons, List.append_assoc] at hx
      cases b with
      | nil => exact absurd (List.append_eq_nil_iff.mp hx).1 String.utf8EncodeChar_ne_nil
      | cons d b =>
        rw [encode_cons] at hx
        obtain rfl := eq_of_encodeChar_append hx
        exact List.cons_prefix_cons.mpr ⟨rfl, ih ⟨x, List.append_cancel_left hx⟩⟩
  · rintro ⟨x, rfl⟩
    exact ⟨encode x, (encode_append a x).symm⟩

/-- The bytes of a text do not start inside those of a character. -/
theorem eq_nil_of_encode_inside {a : Text} {d : Char} {x y z : List UInt8}
    (hd : String.utf8EncodeChar d = x ++ y) (hx : x ≠ []) (hy : y ≠ []) (h : encode a = y ++ z) :
    a = [] := by
  cases a with
  | nil => rfl
  | cons c a =>
    have hinside : x.length < (String.utf8EncodeChar d).length := by
      rw [hd, List.length_append]
      have := List.length_pos_iff.mpr hy
      omega
    have hzero : 0 < (String.utf8EncodeChar c).length := by
      rw [String.length_utf8EncodeChar]
      exact c.utf8Size_pos
    have hfirst : (String.utf8EncodeChar d)[x.length] = (String.utf8EncodeChar c)[0] := by
      have hget : (String.utf8EncodeChar d)[x.length]? = (String.utf8EncodeChar c)[0]? := by
        have hhead : (encode (c :: a))[0]? = (String.utf8EncodeChar c)[0]? := by
          rw [encode_cons, List.getElem?_append_left hzero]
        rw [← hhead, h, hd, List.getElem?_append_right (Nat.le_refl _), Nat.sub_self,
          List.getElem?_append_left (List.length_pos_iff.mpr hy)]
      rw [List.getElem?_eq_getElem hinside, List.getElem?_eq_getElem hzero] at hget
      exact Option.some.inj hget
    have hstart : (String.utf8EncodeChar d)[x.length].IsUTF8FirstByte := by
      rw [hfirst]
      exact UInt8.isUTF8FirstByte_getElem_zero_utf8EncodeChar
    have hlength := UInt8.isUTF8FirstByte_getElem_utf8EncodeChar.mp hstart
    exact absurd (List.length_eq_zero_iff.mp hlength) hx

theorem encode_isSuffix_iff {a b : Text} : encode a <:+ encode b ↔ a <:+ b := by
  constructor
  · rintro ⟨x, hx⟩
    induction b generalizing x with
    | nil =>
      have hnil : encode a = encode [] := (List.append_eq_nil_iff.mp hx).2
      exact encode_inj hnil ▸ List.suffix_refl _
    | cons d b ih =>
      rw [encode_cons] at hx
      rcases List.append_eq_append_iff.mp hx with ⟨y, hd, ha⟩ | ⟨y, rfl, hb⟩
      · -- the bytes of `a` start with the last bytes of `d`
        by_cases hy : y = []
        · subst hy
          obtain rfl : a = b := encode_inj ha
          exact List.suffix_cons d a
        by_cases hx' : x = []
        · subst hx'
          rw [List.nil_append] at hd
          rw [← hd, ← encode_cons] at ha
          exact encode_inj ha ▸ List.suffix_refl _
        · exact eq_nil_of_encode_inside hd hx' hy ha ▸ List.nil_suffix
      · exact (ih y hb.symm).trans (List.suffix_cons d b)
  · rintro ⟨x, rfl⟩
    exact ⟨encode x, (encode_append x a).symm⟩

end Graft.Utf8
