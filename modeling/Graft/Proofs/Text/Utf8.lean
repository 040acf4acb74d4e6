/-
Reading bytes gives the text that they encode.

The ranges of the continuation bytes leave exactly one spelling of each character: no
overlong one, no surrogate, and nothing behind the last code point.  A start byte with its
continuation bytes is thus the encoding of the character that is put together from them:

* `encodeChar_assemble` — one character;
* `encode_of_decode` — a whole text.
-/
import Graft.Text.Utf8

namespace Graft.Utf8

/-- The bytes lie in the ranges, one in each. -/
def Continues : List (UInt8 × UInt8) → List UInt8 → Prop
  | [], [] => True
  | range :: ranges, b :: bs => range.1.toNat ≤ b.toNat ∧ b.toNat ≤ range.2.toNat
    ∧ Continues ranges bs
  | _, _ => False

/-- If as many bytes are in order as there are ranges, they lie in the ranges. -/
theorem continues_take {ranges : List (UInt8 × UInt8)} {bs : List UInt8}
    (h : ¬ inOrder ranges bs < ranges.length) :
    Continues ranges (bs.take (inOrder ranges bs)) := by
  fun_induction inOrder ranges bs with
  | case1 low high ranges b bs hin ih =>
    rw [Bool.and_eq_true, decide_eq_true_eq, decide_eq_true_eq] at hin
    exact ⟨hin.1, hin.2, ih (by simpa using h)⟩
  | case2 => simp at h
  | case3 ranges bs hne =>
    obtain rfl : ranges = [] := List.length_eq_zero_iff.mp (by omega)
    trivial

/-! ### One character -/

/-- The code point of a character that is made from a valid one. -/
theorem toNat_ofNat {n : Nat} (h : n.isValidChar) : (Char.ofNat n).val.toNat = n := by
  rw [Char.ofNat, dif_pos h]
  rfl

theorem ofNat_eq {n : Nat} {b : UInt8} (h : n = b.toNat) : UInt8.ofNat n = b := by
  rw [h, UInt8.ofNat_toNat]

theorem encodeChar_one {s : UInt8} (hs : s.toNat < 0x80) :
    String.utf8EncodeChar (assemble s []) = [s] := by
  have hvalid : s.toNat.isValidChar := .inl (by omega)
  have hvalue : (assemble s []).val.toNat = s.toNat := toNat_ofNat hvalid
  simp only [String.utf8EncodeChar, hvalue]
  rw [if_pos (by omega), ofNat_eq rfl]

theorem encodeChar_two {s b : UInt8} (hs : 0xC2 ≤ s.toNat ∧ s.toNat < 0xE0)
    (hb : 0x80 ≤ b.toNat ∧ b.toNat ≤ 0xBF) :
    String.utf8EncodeChar (assemble s [b]) = [s, b] := by
  have hvalid : (s.toNat % 0x20 * 0x40 + b.toNat % 0x40).isValidChar := .inl (by omega)
  have hvalue : (assemble s [b]).val.toNat = s.toNat % 0x20 * 0x40 + b.toNat % 0x40 :=
    toNat_ofNat hvalid
  simp only [String.utf8EncodeChar, hvalue]
  rw [if_neg (by omega), if_pos (by omega), ofNat_eq (b := s) (by omega),
    ofNat_eq (b := b) (by omega)]

theorem encodeChar_three {s b c : UInt8} (hs : 0xE0 ≤ s.toNat ∧ s.toNat < 0xF0)
    (hb : 0x80 ≤ b.toNat ∧ b.toNat ≤ 0xBF) (hc : 0x80 ≤ c.toNat ∧ c.toNat ≤ 0xBF)
    (hoverlong : s.toNat = 0xE0 → 0xA0 ≤ b.toNat)
    (hsurrogate : s.toNat = 0xED → b.toNat ≤ 0x9F) :
    String.utf8EncodeChar (assemble s [b, c]) = [s, b, c] := by
  have hvalid : ((s.toNat % 0x10 * 0x40 + b.toNat % 0x40) * 0x40
      + c.toNat % 0x40).isValidChar := by
    unfold Nat.isValidChar
    omega
  have hvalue : (assemble s [b, c]).val.toNat
      = (s.toNat % 0x10 * 0x40 + b.toNat % 0x40) * 0x40 + c.toNat % 0x40 := toNat_ofNat hvalid
  simp only [String.utf8EncodeChar, hvalue]
  rw [if_neg (by omega), if_neg (by omega), if_pos (by omega), ofNat_eq (b := s) (by omega),
    ofNat_eq (b := b) (by omega), ofNat_eq (b := c) (by omega)]

theorem encodeChar_four {s b c d : UInt8} (hs : 0xF0 ≤ s.toNat ∧ s.toNat ≤ 0xF4)
    (hb : 0x80 ≤ b.toNat ∧ b.toNat ≤ 0xBF) (hc : 0x80 ≤ c.toNat ∧ c.toNat ≤ 0xBF)
    (hd : 0x80 ≤ d.toNat ∧ d.toNat ≤ 0xBF)
    (hoverlong : s.toNat = 0xF0 → 0x90 ≤ b.toNat) (hlast : s.toNat = 0xF4 → b.toNat ≤ 0x8F) :
    String.utf8EncodeChar (assemble s [b, c, d]) = [s, b, c, d] := by
  have hvalid : (((s.toNat % 0x08 * 0x40 + b.toNat % 0x40) * 0x40 + c.toNat % 0x40) * 0x40
      + d.toNat % 0x40).isValidChar := by
    unfold Nat.isValidChar
    omega
  have hvalue : (assemble s [b, c, d]).val.toNat
      = ((s.toNat % 0x08 * 0x40 + b.toNat % 0x40) * 0x40 + c.toNat % 0x40) * 0x40
        + d.toNat % 0x40 := toNat_ofNat hvalid
  simp only [String.utf8EncodeChar, hvalue]
  rw [if_neg (by omega), if_neg (by omega), if_neg (by omega), ofNat_eq (b := s) (by omega),
    ofNat_eq (b := b) (by omega), ofNat_eq (b := c) (by omega), ofNat_eq (b := d) (by omega)]

/-- The bytes that may follow a start byte: the second one is limited where the whole would be
overlong, a surrogate or too large. -/
theorem continuations?_cases {start : UInt8} {ranges : List (UInt8 × UInt8)}
    (h : continuations? start = some ranges) :
    start.toNat < 0x80 ∧ ranges = []
      ∨ (0xC2 ≤ start.toNat ∧ start.toNat < 0xE0) ∧ ranges = [(0x80, 0xBF)]
      ∨ (0xE0 ≤ start.toNat ∧ start.toNat < 0xF0) ∧ (∃ low high : UInt8,
          ranges = [(low, high), (0x80, 0xBF)] ∧ 0x80 ≤ low.toNat ∧ high.toNat ≤ 0xBF
            ∧ (start.toNat = 0xE0 → 0xA0 ≤ low.toNat) ∧ (start.toNat = 0xED → high.toNat ≤ 0x9F))
      ∨ (0xF0 ≤ start.toNat ∧ start.toNat ≤ 0xF4) ∧ ∃ low high : UInt8,
          ranges = [(low, high), (0x80, 0xBF), (0x80, 0xBF)] ∧ 0x80 ≤ low.toNat
            ∧ high.toNat ≤ 0xBF ∧ (start.toNat = 0xF0 → 0x90 ≤ low.toNat)
            ∧ (start.toNat = 0xF4 → high.toNat ≤ 0x8F) := by
  have hE0 : start = 0xE0 ↔ start.toNat = 0xE0 := UInt8.toNat_inj.symm
  have hED : start = 0xED ↔ start.toNat = 0xED := UInt8.toNat_inj.symm
  have hF0 : start = 0xF0 ↔ start.toNat = 0xF0 := UInt8.toNat_inj.symm
  have hF4 : start = 0xF4 ↔ start.toNat = 0xF4 := UInt8.toNat_inj.symm
  simp only [continuations?, UInt8.lt_iff_toNat_lt, hE0, hED, hF0, hF4, UInt8.reduceToNat] at h
  split at h
  · exact .inl ⟨‹_›, (Option.some.inj h).symm⟩
  split at h
  · simp at h
  split at h
  · exact .inr (.inl ⟨by omega, (Option.some.inj h).symm⟩)
  -- three bytes
  iterate 3
    split at h
    · refine .inr (.inr (.inl ⟨by omega, _, _, (Option.some.inj h).symm, ?_⟩))
      simp only [UInt8.reduceToNat]
      omega
  -- four bytes
  iterate 3
    split at h
    · refine .inr (.inr (.inr ⟨by omega, _, _, (Option.some.inj h).symm, ?_⟩))
      simp only [UInt8.reduceToNat]
      omega
  · simp at h

theorem eq_nil_of_continues {bs : List UInt8} (h : Continues [] bs) : bs = [] := by
  cases bs with
  | nil => rfl
  | cons b bs => exact h.elim

theorem exists_of_continues {range : UInt8 × UInt8} {ranges : List (UInt8 × UInt8)}
    {bs : List UInt8} (h : Continues (range :: ranges) bs) :
    ∃ b rest, bs = b :: rest ∧ (range.1.toNat ≤ b.toNat ∧ b.toNat ≤ range.2.toNat)
      ∧ Continues ranges rest := by
  cases bs with
  | nil => exact h.elim
  | cons b bs => exact ⟨b, bs, rfl, ⟨h.1, h.2.1⟩, h.2.2⟩

/-- A start byte and its continuation bytes encode the character that is put together from
them. -/
theorem encodeChar_assemble {start : UInt8} {ranges : List (UInt8 × UInt8)}
    {following : List UInt8} (hstart : continuations? start = some ranges)
    (hfollowing : Continues ranges following) :
    String.utf8EncodeChar (assemble start following) = start :: following := by
  rcases continuations?_cases hstart with ⟨hs, rfl⟩ | ⟨hs, rfl⟩
    | ⟨hs, low, high, rfl, hlow, hhigh, hoverlong, hsurrogate⟩
    | ⟨hs, low, high, rfl, hlow, hhigh, hoverlong, hlast⟩
  · obtain rfl := eq_nil_of_continues hfollowing
    exact encodeChar_one hs
  · obtain ⟨b, rest, rfl, hb, hrest⟩ := exists_of_continues hfollowing
    obtain rfl := eq_nil_of_continues hrest
    exact encodeChar_two hs hb
  · obtain ⟨b, rest, rfl, hb, hrest⟩ := exists_of_continues hfollowing
    obtain ⟨c, rest, rfl, hc, hrest⟩ := exists_of_continues hrest
    obtain rfl := eq_nil_of_continues hrest
    simp only at hb
    exact encodeChar_three hs (by omega) hc (by omega) (by omega)
  · obtain ⟨b, rest, rfl, hb, hrest⟩ := exists_of_continues hfollowing
    obtain ⟨c, rest, rfl, hc, hrest⟩ := exists_of_continues hrest
    obtain ⟨d, rest, rfl, hd, hrest⟩ := exists_of_continues hrest
    obtain rfl := eq_nil_of_continues hrest
    simp only at hb
    exact encodeChar_four hs (by omega) hc hd (by omega) (by omega)

/-! ### A whole text -/

theorem encode_of_decodeFrom (position : Nat) (bytes : List UInt8) :
    ∀ t, decodeFrom position bytes = .ok t → encode t = bytes := by
  fun_induction decodeFrom position bytes with
  | case1 =>
    intro t h
    obtain rfl := Except.ok.inj h
    rfl
  | case2 | case3 =>
    intro t h
    simp at h
  | case4 position start bs ranges hranges n hn ih =>
    intro t h
    cases hrest : decodeFrom (position + n + 1) (bs.drop n) with
    | error fault =>
      rw [hrest] at h
      simp [Except.map] at h
    | ok rest =>
      rw [hrest] at h
      obtain rfl := Except.ok.inj h
      have hhead := encodeChar_assemble hranges (continues_take hn)
      have htail : encode rest = bs.drop n := ih rest hrest
      rw [encode, List.flatMap_cons, hhead, ← encode, htail, List.cons_append,
        List.take_append_drop]

/-- The bytes that were read are those of the text. -/
theorem encode_of_decode {bytes : List UInt8} {t : Text} (h : decode bytes = .ok t) :
    encode t = bytes :=
  encode_of_decodeFrom 0 bytes t h

end Graft.Utf8
