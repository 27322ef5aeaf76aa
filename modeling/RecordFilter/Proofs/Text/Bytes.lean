import Mathlib.Data.List.Basic

namespace RecordFilter.Text

/-! # Bytes of texts

Bytes are a text if they are its characters in UTF-8, one after the other. The last byte of a character of more than one
byte is none that stands for a character by itself, so a carriage return at the end is a character. Nor is any other of
its bytes, so a line feed is a character wherever it stands.
-/

/-- The bytes of a text. -/
def utf8 (s : List Char) : List UInt8 := s.flatMap String.utf8EncodeChar

theorem fromUTF8?_eq_some_iff {bytes : List UInt8} {t : String} :
    String.fromUTF8? ⟨bytes.toArray⟩ = some t ↔ bytes = utf8 t.toList := by
  have htext : t.toByteArray = (utf8 t.toList).toByteArray := by
    conv => lhs; rw [← String.ofList_toList (s := t)]
    rw [String.toByteArray_ofList]
    rfl
  have hbytes : (⟨bytes.toArray⟩ : ByteArray) = t.toByteArray ↔ bytes = utf8 t.toList := by
    rw [htext, ← List.toByteArray_inj, ByteArray.ext_iff, ByteArray.ext_iff, List.data_toByteArray,
      List.data_toByteArray]
  rw [← hbytes]
  unfold String.fromUTF8?
  split
  · rw [Option.some.injEq, ← String.toByteArray_inj]
    rfl
  · next hvalid =>
    constructor
    · intro h
      cases h
    · intro h
      exact absurd (h ▸ t.isValidUTF8) hvalid

/-- The last byte of a character is a carriage return only if the character is. -/
theorem eq_cr_of_utf8EncodeChar {c : Char} {bytes : List UInt8} (h : String.utf8EncodeChar c = bytes ++ [13]) :
    c = '\r' ∧ bytes = [] := by
  have hlast : ∀ {b : UInt8} (front : List UInt8), front ++ [b] = bytes ++ [13] → b = 13 ∧ front = bytes := by
    intro b front heq
    obtain ⟨hfront, hb⟩ := List.append_inj' heq rfl
    exact ⟨(List.cons.inj hb).1, hfront⟩
  have hcr : (13 : UInt8).toNat = 13 := rfl
  have hcontinuation : ∀ n : Nat, UInt8.ofNat (n % 64 + 128) ≠ 13 := by
    intro n hn
    have hnat := congrArg UInt8.toNat hn
    rw [UInt8.toNat_ofNat', hcr] at hnat
    omega
  unfold String.utf8EncodeChar at h
  simp only at h
  split at h
  · next hsmall =>
    obtain ⟨hb, hfront⟩ := hlast [] h
    have hnat := congrArg UInt8.toNat hb
    rw [UInt8.toNat_ofNat', hcr] at hnat
    refine ⟨?_, hfront.symm⟩
    apply Char.toNat_inj.1
    show c.val.toNat = 13
    omega
  · -- a character of more bytes ends in a continuation byte
    split at h
    · exact absurd (hlast [_] h).1 (hcontinuation _)
    · split at h
      · exact absurd (hlast [_, _] h).1 (hcontinuation _)
      · exact absurd (hlast [_, _, _] h).1 (hcontinuation _)

/-- A text whose last byte is a carriage return ends in that character. -/
theorem fromUTF8?_push_cr {bytes : List UInt8} {t : String}
    (h : String.fromUTF8? ⟨(bytes ++ [13]).toArray⟩ = some t) :
    ∃ s, t.toList = s ++ ['\r'] ∧ String.fromUTF8? ⟨bytes.toArray⟩ = some (String.ofList s) := by
  rw [fromUTF8?_eq_some_iff] at h
  rcases List.eq_nil_or_concat' t.toList with hnil | ⟨s, c, hs⟩
  · rw [hnil] at h
    simp [utf8] at h
  · have hchars : bytes ++ [13] = utf8 s ++ String.utf8EncodeChar c := by
      rw [h, hs]
      simp [utf8]
    rcases List.eq_nil_or_concat' (String.utf8EncodeChar c) with hc | ⟨front, b, hc⟩
    · exact absurd hc String.utf8EncodeChar_ne_nil
    · rw [hc, ← List.append_assoc] at hchars
      obtain ⟨hbytes, hb⟩ := List.append_inj' hchars rfl
      cases hb
      obtain ⟨rfl, rfl⟩ := eq_cr_of_utf8EncodeChar hc
      refine ⟨s, hs, ?_⟩
      rw [fromUTF8?_eq_some_iff, String.toList_ofList, hbytes, List.append_nil]

/-- A byte of a character is a line feed only if the character is. -/
theorem eq_newline_of_mem_utf8EncodeChar {c : Char} (h : 10 ∈ String.utf8EncodeChar c) : c = '\n' := by
  have hbyte : ∀ {n : Nat}, (10 : UInt8) = UInt8.ofNat n → n % 256 = 10 := by
    intro n hn
    have hnat := congrArg UInt8.toNat hn
    rw [UInt8.toNat_ofNat'] at hnat
    exact hnat.symm
  have hlarge : ∀ {n : Nat}, 128 ≤ n → n < 256 → (10 : UInt8) ≠ UInt8.ofNat n := by
    intro n hle hlt hn
    have hmod := hbyte hn
    omega
  unfold String.utf8EncodeChar at h
  simp only at h
  split at h
  · have hmod := hbyte (List.mem_singleton.1 h)
    apply Char.toNat_inj.1
    show c.val.toNat = 10
    omega
  · -- no byte of a longer character stands for a character by itself
    exfalso
    split at h
    · simp only [List.mem_cons, List.not_mem_nil, or_false] at h
      rcases h with h | h <;> exact hlarge (by omega) (by omega) h
    · split at h
      · simp only [List.mem_cons, List.not_mem_nil, or_false] at h
        rcases h with h | h | h <;> exact hlarge (by omega) (by omega) h
      · simp only [List.mem_cons, List.not_mem_nil, or_false] at h
        rcases h with h | h | h | h <;> exact hlarge (by omega) (by omega) h

end RecordFilter.Text
