namespace GoNav

/-- A text as the names on a disk are: bytes, which need not be those of any characters. -/
structure OsText where
  bytes : List UInt8
  deriving DecidableEq, Repr, Inhabited

namespace OsText

def ofString (text : String) : OsText :=
  ⟨text.toList.flatMap String.utf8EncodeChar⟩

instance : Coe String OsText :=
  ⟨ofString⟩

instance : Append OsText :=
  ⟨fun a b => ⟨a.bytes ++ b.bytes⟩⟩

def intercalate (separator : OsText) (parts : List OsText) : OsText :=
  ⟨separator.bytes.intercalate (parts.map bytes)⟩

@[simp]
theorem bytes_append (a b : OsText) : (a ++ b).bytes = a.bytes ++ b.bytes :=
  rfl

@[simp]
theorem bytes_intercalate (separator : OsText) (parts : List OsText) :
    (intercalate separator parts).bytes = separator.bytes.intercalate (parts.map bytes) :=
  rfl

@[simp]
theorem mk_nil : mk [] = ofString "" :=
  rfl

@[simp]
theorem bytes_empty : (ofString "").bytes = [] :=
  rfl

/-- The characters, if the bytes are those of characters. -/
def text? (name : OsText) : Option String :=
  String.fromUTF8? name.bytes.toByteArray

theorem toByteArray_ofString (text : String) : (ofString text).bytes.toByteArray = text.toByteArray := by
  conv => rhs; rw [← String.ofList_toList (s := text)]
  rfl

theorem text?_eq_some_iff {name : OsText} {text : String} : name.text? = some text ↔ name = ofString text := by
  rw [text?, String.fromUTF8?]
  constructor
  · intro read
    split at read
    · have same : name.bytes.toByteArray = text.toByteArray :=
        congrArg String.toByteArray (Option.some.inj read)
      rw [← toByteArray_ofString] at same
      have bytes := congrArg (fun array => array.data.toList) same
      simp only [List.toList_data_toByteArray] at bytes
      exact congrArg mk bytes
    · cases read
  · rintro rfl
    have valid : (ofString text).bytes.toByteArray.IsValidUTF8 := toByteArray_ofString text ▸ text.isValidUTF8
    rw [dif_pos valid]
    exact congrArg some (String.toByteArray_inj.mp (toByteArray_ofString text))

theorem text?_ofString (text : String) : (ofString text).text? = some text :=
  text?_eq_some_iff.mpr rfl

@[simp]
theorem ofString_inj {a b : String} : ofString a = ofString b ↔ a = b := by
  refine ⟨fun same => ?_, congrArg ofString⟩
  have read := text?_ofString a
  rw [same, text?_ofString] at read
  exact (Option.some.inj read).symm

/-- The bytes that may stand second in a character, by its first byte. -/
def secondByte (first : UInt8) : UInt8 × UInt8 :=
  if first = 0xE0 then (0xA0, 0xBF)
  else if first = 0xED then (0x80, 0x9F)
  else if first = 0xF0 then (0x90, 0xBF)
  else if first = 0xF4 then (0x80, 0x8F)
  else (0x80, 0xBF)

/-- How many bytes behind its first one a character takes. -/
def bytesBehind (first : UInt8) : Nat :=
  if 0xC2 ≤ first ∧ first ≤ 0xDF then 1
  else if 0xE0 ≤ first ∧ first ≤ 0xEF then 2
  else if 0xF0 ≤ first ∧ first ≤ 0xF4 then 3
  else 0

/-- How many of the bytes behind the first one go on the character that it begins. -/
def bytesFitting (first : UInt8) : List UInt8 → Nat
  | [] => 0
  | second :: rest =>
    let behind := bytesBehind first
    if 0 < behind ∧ (secondByte first).1 ≤ second ∧ second ≤ (secondByte first).2 then
      1 + ((rest.take (behind - 1)).takeWhile fun b => 0x80 ≤ b ∧ b ≤ 0xBF).length
    else 0

/-- The characters, with a replacement for the bytes that are none, where the first `skip` bytes have been
dealt with. Bytes that begin a character and do not go on to its end are replaced together. -/
def lossyFrom (skip : Nat) : List UInt8 → String
  | [] => ""
  | first :: rest =>
    match skip with
    | n + 1 => lossyFrom n rest
    | 0 =>
      let fitting := bytesFitting first rest
      (text? ⟨first :: rest.take fitting⟩).getD "\uFFFD" ++ lossyFrom fitting rest

/-- The text as it is shown. -/
def display (name : OsText) : String :=
  name.text?.getD (lossyFrom 0 name.bytes)

end OsText

end GoNav
