/-
Berth.Http.Escape — percent-encoding of paths as Go's `net/url` has it.

Escaping works on the bytes of a text. `pathEscape` is for one segment of a
path and therefore escapes the slash; `escapePath` is for a path as a
whole. What is left as it stands is ASCII, so an escaped text has no
character of more than one byte.

Unescaping gives bytes, which need not be text. `textOf` reads them, and
lets the replacement character stand for all bytes that are none.
-/
import Mathlib.Data.List.Basic

namespace Berth.Http

/-! ## Bytes -/

/-- The bytes of a text. -/
def bytesOf (s : String) : List UInt8 := s.toByteArray.data.toList

/-- The text of some bytes. -/
def textOf (bs : List UInt8) : String := (String.fromUTF8? ⟨bs.toArray⟩).getD "�"

theorem textOf_bytesOf (s : String) : textOf (bytesOf s) = s := by
  have hbytes : (⟨(bytesOf s).toArray⟩ : ByteArray) = s.toByteArray := by simp [bytesOf]
  simp only [textOf, hbytes, String.fromUTF8?, s.isValidUTF8, dite_true, Option.getD_some]
  rfl

/-! ## Escaping -/

/-- Letters, digits and the four marks that are never escaped. -/
def isUnreserved (b : UInt8) : Bool :=
  (97 ≤ b && b ≤ 122) || (65 ≤ b && b ≤ 90) || (48 ≤ b && b ≤ 57) ||
    b == 45 || b == 95 || b == 46 || b == 126

/-- The reserved characters that may stand in a segment: `$ & + : = @`. -/
def isSegmentMark (b : UInt8) : Bool :=
  b == 36 || b == 38 || b == 43 || b == 58 || b == 61 || b == 64

/-- Those that may stand in a path: also `, / ;`. -/
def isPathMark (b : UInt8) : Bool := isSegmentMark b || b == 44 || b == 47 || b == 59

/-- An upper case hexadecimal digit. -/
def upperHex (d : UInt8) : Char :=
  if d < 10 then Char.ofNat (48 + d.toNat) else Char.ofNat (55 + d.toNat)

def hexDigit? (c : Char) : Option UInt8 :=
  if '0' ≤ c ∧ c ≤ '9' then some (UInt8.ofNat (c.toNat - 48))
  else if 'a' ≤ c ∧ c ≤ 'f' then some (UInt8.ofNat (c.toNat - 87))
  else if 'A' ≤ c ∧ c ≤ 'F' then some (UInt8.ofNat (c.toNat - 55))
  else none

/-- One byte, as it stands or escaped. -/
def escapeByte (keep : UInt8 → Bool) (b : UInt8) : List Char :=
  if keep b then [Char.ofNat b.toNat] else ['%', upperHex (b / 16), upperHex (b % 16)]

/-- What `url.PathEscape` leaves as it is. -/
def keepsSegment (b : UInt8) : Bool := isUnreserved b || isSegmentMark b

/-- `url.PathEscape`. -/
def pathEscape (s : String) : List Char := (bytesOf s).flatMap (escapeByte keepsSegment)

/-- The path of a URL in its text. -/
def escapePath (s : String) : String :=
  String.ofList ((bytesOf s).flatMap (escapeByte fun b => isUnreserved b || isPathMark b))

/-! ## Unescaping -/

def unescape? : List Char → Option (List UInt8)
  | [] => some []
  | '%' :: a :: b :: cs =>
    match hexDigit? a, hexDigit? b with
    | some a, some b => (unescape? cs).map ((a * 16 + b) :: ·)
    | _, _ => none
  | c :: cs => if c = '%' then none else (unescape? cs).map (String.utf8EncodeChar c ++ ·)

/-- `pathUnescape` of the multiplexer: what is not well escaped stays as it
is. -/
def pathUnescape (seg : List Char) : String :=
  match unescape? seg with
  | some bs => textOf bs
  | none => String.ofList seg

/-! ## Round trip -/

/-- A check of all bytes, one by one. -/
theorem byte_forall {p : UInt8 → Prop} (h : ∀ n < 256, p (UInt8.ofNat n)) (b : UInt8) : p b := by
  have hb := h b.toNat b.toNat_lt
  rwa [UInt8.ofNat_toNat] at hb

/-- A byte that is kept is a character of its own, and none that means
something in a path. -/
theorem keepsSegment_char : ∀ b : UInt8, keepsSegment b = true →
    String.utf8EncodeChar (Char.ofNat b.toNat) = [b] ∧ Char.ofNat b.toNat ≠ '%' ∧
      Char.ofNat b.toNat ≠ '/' :=
  byte_forall (by decide +kernel)

/-- An escaped byte is two digits, which are read back. -/
theorem upperHex_digits : ∀ b : UInt8,
    hexDigit? (upperHex (b / 16)) = some (b / 16) ∧ hexDigit? (upperHex (b % 16)) = some (b % 16) ∧
      b / 16 * 16 + b % 16 = b ∧ upperHex (b / 16) ≠ '/' ∧ upperHex (b % 16) ≠ '/' :=
  byte_forall (by decide +kernel)

theorem unescape?_cons {c : Char} (h : c ≠ '%') (cs : List Char) :
    unescape? (c :: cs) = (unescape? cs).map (String.utf8EncodeChar c ++ ·) := by
  rw [unescape?.eq_def]
  split
  · next heq => cases heq
  · next heq =>
    cases heq
    exact absurd rfl h
  · next heq =>
    cases heq
    rw [if_neg h]

theorem unescape?_escapeByte (b : UInt8) (cs : List Char) :
    unescape? (escapeByte keepsSegment b ++ cs) = (unescape? cs).map (b :: ·) := by
  unfold escapeByte
  split
  · next hkeep =>
    obtain ⟨hbytes, hpercent, _⟩ := keepsSegment_char b hkeep
    rw [List.singleton_append, unescape?_cons hpercent, hbytes]
    rfl
  · obtain ⟨hhi, hlo, hsum, _⟩ := upperHex_digits b
    simp only [List.cons_append, List.nil_append, unescape?, hhi, hlo, hsum]

theorem unescape?_flatMap (bs : List UInt8) :
    unescape? (bs.flatMap (escapeByte keepsSegment)) = some bs := by
  induction bs with
  | nil => rfl
  | cons b bs ih => rw [List.flatMap_cons, unescape?_escapeByte, ih, Option.map_some]

theorem pathUnescape_pathEscape (s : String) : pathUnescape (pathEscape s) = s := by
  rw [pathUnescape, pathEscape, unescape?_flatMap]
  exact textOf_bytesOf s

theorem pathEscape_injective {s t : String} (h : pathEscape s = pathEscape t) : s = t := by
  rw [← pathUnescape_pathEscape s, h, pathUnescape_pathEscape]

/-- An escaped segment stays a segment. -/
theorem slash_not_mem_pathEscape (s : String) : '/' ∉ pathEscape s := by
  intro h
  obtain ⟨b, _, hb⟩ := List.mem_flatMap.mp h
  unfold escapeByte at hb
  split at hb
  · next hkeep =>
    rw [List.mem_singleton] at hb
    exact (keepsSegment_char b hkeep).2.2 hb.symm
  · obtain ⟨_, _, _, hhi, hlo⟩ := upperHex_digits b
    simp only [List.mem_cons, List.not_mem_nil, or_false] at hb
    rcases hb with hb | hb | hb
    · exact absurd hb (by decide)
    · exact hhi hb.symm
    · exact hlo hb.symm

/-! ## ASCII -/

theorem bytesOf_ofList (cs : List Char) :
    bytesOf (String.ofList cs) = cs.flatMap String.utf8EncodeChar := by
  simp [bytesOf, List.utf8Encode]

/-- Bytes below 128 are the characters of the same numbers. -/
theorem textOf_ascii {bs : List UInt8} (h : ∀ b ∈ bs, b < 128) :
    textOf bs = String.ofList (bs.map fun b => Char.ofNat b.toNat) := by
  have hchar : ∀ b : UInt8, b < 128 → String.utf8EncodeChar (Char.ofNat b.toNat) = [b] :=
    byte_forall (by decide +kernel)
  have hbytes : bytesOf (String.ofList (bs.map fun b => Char.ofNat b.toNat)) = bs := by
    rw [bytesOf_ofList]
    induction bs with
    | nil => rfl
    | cons b bs ih =>
      rw [List.map_cons, List.flatMap_cons, hchar b (h b List.mem_cons_self),
        ih fun x hx => h x (List.mem_cons_of_mem b hx), List.singleton_append]
  rw [← hbytes, textOf_bytesOf, hbytes]

example : pathEscape "a/b c" = "a%2Fb%20c".toList := by decide

end Berth.Http
