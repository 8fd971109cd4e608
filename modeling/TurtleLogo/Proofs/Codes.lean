import TurtleLogo.Proofs.Literals
import TurtleLogo.Proofs.UniqueText

/-!
# Codes of colours

A code is `#` and six hexadecimal digits. A reader may as well work on bytes: count them, see whether all are digits, and
cut them into pairs by their offsets. `Colour.ofHexBytes?` does so and tells when it would cut inside a character, which
never happens, because a byte that is a digit is a character of its own.
-/

namespace TurtleLogo

/-! ## Bytes of texts -/

namespace Utf8

/-- The bytes of a text. -/
def bytes (text : String) : List UInt8 :=
  text.toByteArray.data.toList

theorem bytes_eq (text : String) : bytes text = text.toList.flatMap String.utf8EncodeChar := by
  rw [bytes, ← String.utf8Encode_toList, List.utf8Encode]
  simp

/-- The text between two offsets in bytes. There is none if one of them is inside a character, or beyond the end. -/
def cut? (text : String) (start stop : Nat) : Option String :=
  if h : String.Pos.Raw.IsValid text ⟨start⟩ ∧ String.Pos.Raw.IsValid text ⟨stop⟩ then
    some (String.extract (s := text) ⟨⟨start⟩, h.1⟩ ⟨⟨stop⟩, h.2⟩)
  else none

/-- A text can be cut where it was put together. -/
theorem cut?_append (front middle back : String) :
    cut? (front ++ middle ++ back) front.utf8ByteSize (front ++ middle).utf8ByteSize = some middle := by
  have hstart : String.Pos.Raw.IsValid (front ++ middle ++ back) ⟨front.utf8ByteSize⟩ :=
    String.Pos.Raw.isValid_iff_exists_append.2 ⟨front, middle ++ back, String.append_assoc, rfl⟩
  have hstop : String.Pos.Raw.IsValid (front ++ middle ++ back) ⟨(front ++ middle).utf8ByteSize⟩ :=
    String.Pos.Raw.isValid_iff_exists_append.2 ⟨front ++ middle, back, rfl, rfl⟩
  rw [cut?, dif_pos ⟨hstart, hstop⟩, Option.some.injEq, ← String.toByteArray_inj]
  -- What is cut out are the bytes behind those of the front, as many as the middle has.
  change (front ++ middle ++ back).toByteArray.extract front.toByteArray.size (front ++ middle).toByteArray.size = _
  have hcut : (front.toByteArray ++ (middle.toByteArray ++ back.toByteArray)).extract (front.toByteArray.size + 0)
      (front.toByteArray.size + middle.toByteArray.size) = middle.toByteArray :=
    ByteArray.extract_append_size_add.trans (ByteArray.extract_append_eq_left rfl)
  rwa [String.append_assoc, String.toByteArray_append, String.toByteArray_append, String.toByteArray_append,
    ByteArray.size_append]

end Utf8

/-! ## Codes -/

namespace Colour

open Utf8 (bytes cut?)

/-- A byte that is a hexadecimal digit of either case. -/
def isHexByte (b : UInt8) : Bool :=
  (48 ≤ b && b ≤ 57) || (65 ≤ b && b ≤ 70) || (97 ≤ b && b ≤ 102)

theorem isUTF8FirstByte_of_isHexByte {b : UInt8} (h : isHexByte b = true) : b.IsUTF8FirstByte := by
  have hall : ∀ n < 256, isHexByte (UInt8.ofNat n) = true → UInt8.ofNat n &&& 128 = 0 := by decide +kernel
  have hbyte := hall b.toNat b.toNat_lt
  rw [UInt8.ofNat_toNat] at hbyte
  exact .inl (hbyte h)

theorem val_le_of_isHexDigit {c : Char} (h : isHexDigit c = true) : c.val ≤ 127 :=
  UInt32.le_iff_toNat_le.2 (Nat.le_of_lt_succ (toNat_lt_of_isHexDigit h))

/-- A character whose bytes are all digits is itself a digit. -/
theorem all_isHexByte_utf8EncodeChar (c : Char) : (String.utf8EncodeChar c).all isHexByte = isHexDigit c := by
  by_cases hsize : c.utf8Size = 1
  · have hsmall : c.toNat < 128 := Nat.lt_succ_of_le (UInt32.le_iff_toNat_le.1 (Char.utf8Size_eq_one_iff.1 hsize))
    have hall : ∀ k < 128, isHexByte (Char.ofNat k).val.toUInt8 = isHexDigit (Char.ofNat k) := by decide
    have hchar := hall c.toNat hsmall
    rw [Char.ofNat_toNat] at hchar
    rw [String.utf8EncodeChar_eq_singleton hsize, List.all_cons, List.all_nil, Bool.and_true, hchar]
  · have hdigit : isHexDigit c = false :=
      Bool.eq_false_iff.2 fun hdigit => hsize (Char.utf8Size_eq_one_iff.2 (val_le_of_isHexDigit hdigit))
    have hlength : 1 < (String.utf8EncodeChar c).length := by
      have hpos := c.utf8Size_pos
      rw [String.length_utf8EncodeChar]
      omega
    rw [hdigit, Bool.eq_false_iff, ne_eq, List.all_eq_true]
    intro hbytes
    -- A digit can begin a character, and no byte of a longer character but its first can.
    have hsecond := isUTF8FirstByte_of_isHexByte (hbytes _ (List.getElem_mem hlength))
    cases UInt8.isUTF8FirstByte_getElem_utf8EncodeChar.1 hsecond

/-- The channel written by a text. -/
def channelOfText? (text : String) : Option UInt8 :=
  match text.toList with
  | [high, low] => channelOfDigits? high low
  | _ => none

/-- Reads the digits of a code by their bytes: six are wanted that are digits, and they are cut into three pairs. The outer
option is empty if a pair was cut inside a character. -/
def ofDigitBytes? (digits : String) : Option (Option Colour) :=
  if digits.utf8ByteSize = 6 ∧ (bytes digits).all isHexByte = true then do
    let red ← cut? digits 0 2
    let green ← cut? digits 2 4
    let blue ← cut? digits 4 6
    return do
      let red ← channelOfText? red
      let green ← channelOfText? green
      let blue ← channelOfText? blue
      return { red, green, blue }
  else some none

/-- Reads `#` and the bytes of digits. -/
def ofHexBytes? (text : String) : Option (Option Colour) :=
  match text.toList with
  | '#' :: digits => ofDigitBytes? (String.ofList digits)
  | _ => some none

theorem all_isHexByte_bytes (text : String) : (bytes text).all isHexByte = text.toList.all isHexDigit := by
  rw [Utf8.bytes_eq, List.all_flatMap]
  exact congrArg text.toList.all (funext all_isHexByte_utf8EncodeChar)

theorem utf8ByteSize_of_isHexDigit {digits : List Char} (h : ∀ d ∈ digits, isHexDigit d = true) :
    (String.ofList digits).utf8ByteSize = digits.length := by
  induction digits with
  | nil => rfl
  | cons d digits ih =>
      rcases List.forall_mem_cons.1 h with ⟨hd, hdigits⟩
      rw [String.ofList_cons, String.utf8ByteSize_append, String.utf8ByteSize_singleton, ih hdigits,
        Char.utf8Size_eq_one_iff.2 (val_le_of_isHexDigit hd), List.length_cons, Nat.add_comm]

/-- What the test of the bytes says about the characters. -/
theorem accepts_iff (digits : List Char) :
    (String.ofList digits).utf8ByteSize = 6 ∧ (bytes (String.ofList digits)).all isHexByte = true ↔
      digits.length = 6 ∧ ∀ d ∈ digits, isHexDigit d = true := by
  rw [all_isHexByte_bytes, String.toList_ofList, List.all_eq_true]
  -- Bytes and characters are counted alike once all of them are digits.
  refine and_congr_left fun hdigits => ?_
  rw [utf8ByteSize_of_isHexDigit hdigits]

/-- Digits can be cut anywhere. -/
theorem cut?_digits (front middle back : List Char) (h : ∀ d ∈ front ++ middle ++ back, isHexDigit d = true) :
    cut? (String.ofList (front ++ middle ++ back)) front.length (front ++ middle).length = some (String.ofList middle) := by
  have hmiddle : ∀ d ∈ front ++ middle, isHexDigit d = true := fun d hd => h d (List.mem_append_left back hd)
  have hfront : ∀ d ∈ front, isHexDigit d = true := fun d hd => hmiddle d (List.mem_append_left middle hd)
  rw [← utf8ByteSize_of_isHexDigit hfront, ← utf8ByteSize_of_isHexDigit hmiddle, String.ofList_append, String.ofList_append]
  exact Utf8.cut?_append _ _ _

theorem channelOfText?_ofList (high low : Char) :
    channelOfText? (String.ofList [high, low]) = channelOfDigits? high low := by
  rw [channelOfText?, String.toList_ofList]

theorem ofDigitBytes?_of_digits {digits : List Char} (hlength : digits.length = 6)
    (hdigits : ∀ d ∈ digits, isHexDigit d = true) :
    ofDigitBytes? (String.ofList digits) = some (ofHex? (String.ofList ('#' :: digits))) := by
  match digits, hlength with
  | [r₁, r₀, g₁, g₀, b₁, b₀], _ =>
      have hred : cut? _ 0 2 = _ := cut?_digits [] [r₁, r₀] [g₁, g₀, b₁, b₀] hdigits
      have hgreen : cut? _ 2 4 = _ := cut?_digits [r₁, r₀] [g₁, g₀] [b₁, b₀] hdigits
      have hblue : cut? _ 4 6 = _ := cut?_digits [r₁, r₀, g₁, g₀] [b₁, b₀] [] hdigits
      simp only [List.nil_append, List.cons_append, List.append_nil] at hred hgreen hblue
      rw [ofDigitBytes?, if_pos ((accepts_iff _).2 ⟨rfl, hdigits⟩), hred, hgreen, hblue]
      simp only [ofHex?, String.toList_ofList, Option.bind_eq_bind, Option.bind_some, channelOfText?_ofList]
      rfl

/-- The reader by bytes never cuts inside a character, and reads what the reader by characters does. -/
theorem ofHexBytes?_eq (text : String) : ofHexBytes? text = some (ofHex? text) := by
  have hnone (hcode : ¬ IsCode text) : ofHex? text = none := by simpa using mt (isSome_ofHex?_iff text).1 hcode
  unfold ofHexBytes?
  split
  · next digits htext =>
      by_cases hdigits : digits.length = 6 ∧ ∀ d ∈ digits, isHexDigit d = true
      · rw [ofDigitBytes?_of_digits hdigits.1 hdigits.2, ← htext, String.ofList_toList]
      · rw [ofDigitBytes?, if_neg (mt (accepts_iff digits).1 hdigits), hnone]
        rintro ⟨-, hlength, hall⟩
        rw [htext] at hlength hall
        exact hdigits ⟨hlength, hall⟩
  · next hother =>
      rw [hnone]
      rintro ⟨hhead, -, -⟩
      cases htext : text.toList with
      | nil =>
          rw [htext] at hhead
          cases hhead
      | cons c digits =>
          rw [htext] at hhead
          cases hhead
          exact hother digits htext

theorem isCode_iff (text : String) :
    IsCode text ↔ ∃ digits, text.toList = '#' :: digits ∧ digits.length = 6 ∧ ∀ d ∈ digits, isHexDigit d = true := by
  constructor
  · rintro ⟨hhead, hlength, hdigits⟩
    exact ⟨text.toList.tail, (List.cons_head?_tail hhead).symm, hlength, hdigits⟩
  · rintro ⟨digits, htext, hlength, hdigits⟩
    rw [IsCode, htext]
    exact ⟨rfl, hlength, hdigits⟩

/-- A text is read as a colour if it is `#` and six digits, and not otherwise; the code of that colour is the text in lower
case, and from its code every colour is read back. No text is cut inside a character when it is read by its bytes, and the
result is then the same. -/
theorem codes_read_as_written (text : String) :
    ((∃ c, ofHex? text = some c) ↔
        ∃ digits, text.toList = '#' :: digits ∧ digits.length = 6 ∧ ∀ d ∈ digits, isHexDigit d = true) ∧
      (∀ c, ofHex? text = some c → c.hex = text.toLower) ∧
      (∀ c : Colour, ofHex? c.hex = some c) ∧
      ofHexBytes? text = some (ofHex? text) := by
  refine ⟨?_, fun c h => hex_of_ofHex? h, ofHex?_hex, ofHexBytes?_eq text⟩
  rw [← Option.isSome_iff_exists, isSome_ofHex?_iff, isCode_iff]

/-- Five characters of six bytes, of which the first pair ends inside the accented letter, and a code in both cases. -/
theorem accented_code_is_refused :
    cut? "aé111" 0 2 = none ∧ ofHexBytes? "#aé111" = some none ∧ ofHexBytes? "#FF00fe" = some (some ⟨255, 0, 254⟩) ∧
      hex ⟨255, 0, 254⟩ = "#FF00fe".toLower := by
  have hread : ofHex? "#FF00fe" = some ⟨255, 0, 254⟩ := by decide
  have hrefused : ofHex? "#aé111" = none := by decide
  have hboundary : ¬ String.Pos.Raw.IsValid "aé111" ⟨2⟩ := by decide
  rcases codes_read_as_written "#FF00fe" with ⟨-, hwritten, -, hbytes⟩
  have haccent := (codes_read_as_written "#aé111").2.2.2
  exact ⟨dif_neg fun h => hboundary h.2, haccent.trans (congrArg some hrefused), hbytes.trans (congrArg some hread),
    hwritten _ hread⟩

end Colour

end TurtleLogo
