import Mathlib
import Brainfuck.Json.Encoding
import Brainfuck.Json.Writer

/-!
# JSON texts

Two facts about what is read of a text. More arrays inside each other than may be are refused, whatever else the text holds
(`ofText_replicate`). And an object of texts, switches and positive integers is read back from the text that writes it
(`ofText_write_object`): the escapes of a string give its characters back, the digits of an integer its value, and the first two
characters of the text say that it is in UTF-8.
-/

namespace Brainfuck.Json

/-! ## The encoding -/

/-- The octets of a byte array, as they are listed from some place on behind octets in reverse. -/
theorem toList_loop (bytes : ByteArray) (i : Nat) (done : List UInt8) :
    ByteArray.toList.loop bytes i done = done.reverse ++ bytes.data.toList.drop i := by
  induction i, done using ByteArray.toList.loop.induct bytes with
  | case1 i done hi ih =>
    have hlength : i < bytes.data.toList.length := by simpa using hi
    have hget : bytes.get! i = bytes.data.toList[i] := by
      rw [ByteArray.get!, Array.getElem_toList]
      exact getElem!_pos bytes.data i (by simpa using hi)
    rw [ByteArray.toList.loop, if_pos hi, ih, List.drop_eq_getElem_cons hlength, hget]
    simp
  | case2 i done hi =>
    have hlength : bytes.data.toList.length ≤ i := by simpa using hi
    rw [ByteArray.toList.loop, if_neg hi, List.drop_eq_nil_of_le hlength, List.append_nil]

/-- A text whose first two octets are not zero is in UTF-8. -/
theorem Encoding.ofStart_cons_cons {a b : UInt8} (ha : a ≠ 0) (hb : b ≠ 0) (rest : List UInt8) :
    ofStart (a :: b :: rest) = .utf8 := by
  match rest with
  | [] | [_] | [_, _] => simp [ofStart, ha, hb]
  | _ :: _ :: _ :: _ => rfl

/-- The octets of a text that begins with an ASCII character. -/
theorem utf8Encode_cons_ascii {c : Char} (hc : c.toNat < 128) (chars : List Char) :
    (c :: chars).utf8Encode.data.toList = c.val.toUInt8 :: chars.utf8Encode.data.toList := by
  have hval : c.val ≤ 127 := by
    rw [UInt32.le_iff_toNat_le]
    exact Nat.le_of_lt_succ hc
  have hsize : c.utf8Size = 1 := Char.utf8Size_eq_one_iff.mpr hval
  rw [List.utf8Encode_cons, List.utf8Encode_singleton, String.utf8EncodeChar_eq_singleton hsize]
  simp

/-- A text that begins with two ASCII characters, neither of them the null character, is read as it is. -/
theorem decodeText?_cons_cons {c d : Char} (hc : c ≠ '\x00' ∧ c.toNat < 128) (hd : d ≠ '\x00' ∧ d.toNat < 128)
    (chars : List Char) : decodeText? (String.ofList (c :: d :: chars)) = some ((c :: d :: chars).map some) := by
  have hzero : ∀ e : Char, e ≠ '\x00' ∧ e.toNat < 128 → e.val.toUInt8 ≠ 0 := by
    rintro e ⟨hne, hlt⟩ hzero
    have hmod : e.toNat % 256 = 0 := congrArg UInt8.toNat hzero
    have hnat : e.toNat = '\x00'.toNat := by
      rw [Nat.mod_eq_of_lt (by omega)] at hmod
      exact hmod
    exact hne (Char.toNat_inj.mp hnat)
  have hstart : ((String.ofList (c :: d :: chars)).toUTF8.extract 0 4).toList =
      c.val.toUInt8 :: d.val.toUInt8 :: chars.utf8Encode.data.toList.take 2 := by
    rw [ByteArray.toList, toList_loop, String.toUTF8_eq_toByteArray, String.toByteArray_ofList, ByteArray.data_extract]
    simp [utf8Encode_cons_ascii hc.2, utf8Encode_cons_ascii hd.2]
  simp only [decodeText?, hstart, Encoding.ofStart_cons_cons (hzero c hc) (hzero d hd), String.toList_ofList]
  -- an ASCII character is no byte order mark
  split
  · rename_i heq
    cases heq
    exact absurd hc.2 (by decide)
  · rfl

/-- Only blanks are skipped. -/
theorem skipSpace_cons {c : Char} (hc : isSpace c = false) (text : Glyphs) : skipSpace (some c :: text) = some c :: text := by
  simp [skipSpace, hc]

/-! ## Nesting -/

/-- More arrays inside each other than may be are refused, whatever stands in them. -/
theorem value_replicate (nesting bound : Nat) (hbound : 2 * nesting < bound) (rest : Glyphs) :
    value nesting bound (List.replicate (nesting + 1) (some '[') ++ rest) = .error .refused := by
  induction nesting generalizing bound with
  | zero =>
    obtain ⟨bound, rfl⟩ : ∃ b, bound = b + 1 := ⟨bound - 1, by omega⟩
    simp [value]
  | succ nesting ih =>
    obtain ⟨bound, rfl⟩ : ∃ b, bound = b + 2 := ⟨bound - 2, by omega⟩
    have hitem := ih bound (by omega)
    rw [List.replicate_succ, List.cons_append] at hitem ⊢
    rw [value, List.replicate_succ, List.cons_append, skipSpace_cons (by decide)]
    -- what stands behind the bracket is not the end of the array
    simp [items, hitem]

/-- A text that opens more arrays than may stand inside each other is refused. -/
theorem ofText_replicate {n : Nat} (hn : maxNesting < n) (chars : List Char) :
    ofText (String.ofList (List.replicate n '[' ++ chars)) = .error .refused := by
  have hmax : 2 ≤ maxNesting := by decide
  obtain ⟨k, rfl⟩ : ∃ k, n = k + 2 := ⟨n - 2, by omega⟩
  have hdecode := decodeText?_cons_cons (c := '[') (d := '[') (by decide) (by decide) (List.replicate k '[' ++ chars)
  have hsplit : ('[' :: '[' :: (List.replicate k '[' ++ chars)).map some =
      List.replicate (maxNesting + 1) (some '[') ++ (List.replicate (k + 1 - maxNesting) (some '[') ++ chars.map some) := by
    rw [← List.append_assoc, List.replicate_append_replicate, show maxNesting + 1 + (k + 1 - maxNesting) = k + 2 by omega]
    simp [List.replicate_succ]
  have hlength : (('[' :: '[' :: (List.replicate k '[' ++ chars)).map some).length = k + chars.length + 2 := by simp
  have hskip : skipSpace (('[' :: '[' :: (List.replicate k '[' ++ chars)).map some) =
      ('[' :: '[' :: (List.replicate k '[' ++ chars)).map some := skipSpace_cons (by decide) _
  simp only [ofText, List.replicate_succ, List.cons_append, hdecode, ofGlyphs, hskip]
  rw [hlength, hsplit, value_replicate _ _ (by omega)]

/-! ## Strings -/

/-- The four digits of the escape of a control give its number back. -/
theorem codeUnit?_hex {n : Nat} (hn : n < 0x20) (rest : Glyphs) : codeUnit? ((hex 4 n).map some ++ rest) = some (n, rest) := by
  have hall : ∀ n < 0x20, ((hex 4 n).length = 4) ∧
      ((hex 4 n).mapM hexDigit?).map (fun digits => digits.foldl (fun n x => 16 * n + x) 0) = some n := by decide
  obtain ⟨hlength, hvalue⟩ := hall n hn
  match hdigits : hex 4 n, hlength with
  | [a, b, c, d], _ =>
    rw [hdigits, Option.map_eq_some_iff] at hvalue
    obtain ⟨values, hvalues, hn⟩ := hvalue
    simp only [List.map_cons, List.map_nil, List.cons_append, List.nil_append, codeUnit?, hvalues, hn]

/-- A character that is no quote, no backslash and no control is read as it is. -/
theorem stringBody?_plain (bound : Nat) (done : List Char) {c : Char} (text : Glyphs) (hquote : c ≠ '"') (hbackslash : c ≠ '\\')
    (hcontrol : 0x20 ≤ c.toNat) :
    stringBody? (bound + 1) false done (some c :: text) = stringBody? bound false (c :: done) text := by
  rw [stringBody?]
  · exact if_neg (by omega)
  · rintro ⟨⟩
    exact hquote rfl
  · exact fun rest _ hc => hbackslash hc
  · exact fun e rest _ hc => hbackslash hc
  · exact hbackslash

/-- A character that is written in a string is read back. -/
theorem stringBody?_writeChar (bound : Nat) (done : List Char) (c : Char) (text : Glyphs) :
    stringBody? (bound + 1) false done ((writeChar c).map some ++ text) = stringBody? bound false (c :: done) text := by
  unfold writeChar
  split
  · rename_i hescaped
    rcases hescaped with rfl | rfl <;> rfl
  · split
    · rename_i hcontrol
      have hnot : c.toNat < 0xD800 := by omega
      simp [stringBody?, codeUnit?_hex hcontrol, hnot]
    · rename_i hplain hcontrol
      obtain ⟨hquote, hbackslash⟩ := not_or.mp hplain
      exact stringBody?_plain bound done text hquote hbackslash (by omega)

/-- The characters that are written in a string are read back. -/
theorem stringBody?_writeChars (chars done : List Char) (rest : Glyphs) (bound : Nat) (hbound : chars.length < bound) :
    stringBody? bound false done ((chars.flatMap writeChar).map some ++ some '"' :: rest) =
      some (.string (String.ofList (done.reverse ++ chars)), rest) := by
  induction chars generalizing done bound with
  | nil =>
    obtain ⟨bound, rfl⟩ : ∃ b, bound = b + 1 := ⟨bound - 1, by omega⟩
    simp [stringBody?, stringValue]
  | cons c chars ih =>
    obtain ⟨bound, rfl⟩ : ∃ b, bound = b + 1 := ⟨bound - 1, by omega⟩
    rw [List.length_cons] at hbound
    rw [List.flatMap_cons, List.map_append, List.append_assoc, stringBody?_writeChar, ih _ _ (by omega)]
    simp

/-! ## Numbers -/

/-- A text that does not go on with a digit, a fraction or an exponent, as behind a value in an object. -/
def Ends (rest : Glyphs) : Prop := ∃ c tail, rest = some c :: tail ∧ (c = ',' ∨ c = '\x7d')

/-- The values of ASCII digits. -/
theorem filterMap_asciiDigit? {chars : List Char} (h : ∀ c ∈ chars, c.isDigit = true) :
    (chars.map some).filterMap (·.bind asciiDigit?) = chars.map (fun c => c.toNat - '0'.toNat) := by
  induction chars with
  | nil => rfl
  | cons c chars ih =>
    rw [List.forall_mem_cons] at h
    simp [asciiDigit?, h.1, ih h.2]

/-- ASCII digits at the front of a text are read up to where they end. -/
theorem digits_append {chars : List Char} {rest : Glyphs} (hchars : ∀ c ∈ chars, c.isDigit = true) (hrest : Ends rest) :
    digits (chars.map some ++ rest) = (chars.map (fun c => c.toNat - '0'.toNat), rest) := by
  obtain ⟨c, tail, rfl, hc⟩ := hrest
  have hstop : c.isDigit = false := by rcases hc with rfl | rfl <;> decide
  have hall : ∀ glyph ∈ chars.map some, glyph.any Char.isDigit = true := by simpa using hchars
  rw [digits, List.takeWhile_append_of_pos hall, List.dropWhile_append_of_pos hall]
  simp [hstop, filterMap_asciiDigit? hchars]

/-- A number as text is its digits. -/
theorem toList_toString (n : Nat) : (toString n).toList = Nat.toDigits 10 n := String.toList_ofList

/-- The digits of a number give it back. -/
theorem ofDigits_toDigits (n : Nat) : ofDigits ((Nat.toDigits 10 n).map (fun c => c.toNat - '0'.toNat)) = n := by
  rw [ofDigits, List.foldl_map]
  exact Nat.ofDigitChars_ten_toDigits

/-- A number is written in digits. -/
theorem isDigit_of_mem_toDigits {n : Nat} {c : Char} (h : c ∈ Nat.toDigits 10 n) : c.isDigit = true :=
  Nat.isDigit_of_mem_toDigits (by decide) (by decide) h

/-- The digits of a number begin with a digit. -/
theorem exists_toDigits_cons (n : Nat) : ∃ c chars, Nat.toDigits 10 n = c :: chars ∧ c.isDigit = true := by
  obtain ⟨c, chars, hchars⟩ := List.exists_cons_of_ne_nil (show Nat.toDigits 10 n ≠ [] from Nat.toDigits_ne_nil)
  exact ⟨c, chars, hchars, isDigit_of_mem_toDigits (hchars ▸ List.mem_cons_self)⟩

/-- The digits of a positive number do not begin with a zero. -/
theorem head?_toDigits {n : Nat} (hn : 0 < n) : (Nat.toDigits 10 n).head? ≠ some '0' := by
  induction n using Nat.strongRecOn with
  | ind n ih =>
    by_cases h : n < 10
    · rw [Nat.toDigits_of_lt_base h]
      simp
      omega
    · rw [Nat.toDigits_of_base_le (by decide) (by omega), List.head?_append]
      have hhead := ih (n / 10) (by omega) (by omega)
      cases hdigits : (Nat.toDigits 10 (n / 10)).head? with
      | none => exact absurd (List.head?_eq_none_iff.mp hdigits) Nat.toDigits_ne_nil
      | some c => rwa [hdigits] at hhead

/-- Digits that do not begin with a zero, and are not too many, are an integer if no fraction and no exponent follows. -/
theorem unsigned_of_digits {c : Char} {text rest : Glyphs} {ds : List Nat} (hc : c ≠ '0')
    (hdigits : digits (some c :: text) = (ds, rest)) (hne : ds ≠ []) (hlength : ds.length ≤ maxDigits) (hrest : Ends rest) :
    unsigned false (some c :: text) = .ok (.integer (ofDigits ds), rest) := by
  have hends : fraction rest = ([], rest) ∧ exponent rest = (none, rest) := by
    obtain ⟨e, tail, rfl, rfl | rfl⟩ := hrest
    all_goals exact ⟨rfl, rfl⟩
  obtain ⟨hfraction, hexponent⟩ := hends
  have hshort : ¬maxDigits < ds.length := by omega
  have hmany : ds.isEmpty = false := by simpa using hne
  unfold unsigned
  -- the integer part is the digits, since these do not begin with a zero
  split
  rename_i whole after hwhole
  split at hwhole
  · rename_i hzero
    cases hzero
    exact absurd rfl hc
  · rw [hdigits] at hwhole
    cases hwhole
    simp [hfraction, hexponent, hshort, hmany]

/-- A positive integer is read back from its digits. -/
theorem unsigned_toDigits {n : Nat} {rest : Glyphs} (hn : 0 < n) (hlength : (Nat.toDigits 10 n).length ≤ maxDigits)
    (hrest : Ends rest) : unsigned false ((Nat.toDigits 10 n).map some ++ rest) = .ok (.integer n, rest) := by
  have hall : ∀ c ∈ Nat.toDigits 10 n, c.isDigit = true := fun c hc => isDigit_of_mem_toDigits hc
  have hdigits := digits_append hall hrest
  have hhead := head?_toDigits hn
  have hvalue := ofDigits_toDigits n
  cases hchars : Nat.toDigits 10 n with
  | nil => exact absurd hchars Nat.toDigits_ne_nil
  | cons c chars =>
    rw [hchars] at hdigits hhead hvalue hlength
    have hc : c ≠ '0' := by simpa using hhead
    have hread := unsigned_of_digits hc hdigits (by simp) (by simpa using hlength) hrest
    rw [hvalue] at hread
    exact hread

/-! ## Values of fields -/

/-- A switch, a text, or a positive integer of no more digits than an integer may have. -/
inductive Plain : Json → Prop
  | bool (b : Bool) : Plain (.bool b)
  | string (text : String) : Plain (.string text)
  | integer (n : Nat) (hpos : 0 < n) (hlength : (Nat.toDigits 10 n).length ≤ maxDigits) : Plain (.integer n)

/-- A value that begins with a digit is an integer or a decimal without a sign. -/
theorem value_digit {c : Char} (hc : c.isDigit = true) (nesting bound : Nat) (text : Glyphs) :
    value nesting (bound + 1) (some c :: text) = unsigned false (some c :: text) := by
  have hne : ∀ d : Char, d.isDigit = false → d ≠ c := by
    rintro d hd rfl
    simp [hc] at hd
  have hwords : words.findSome? (fun w => (after? w.1 (some c :: text)).map (fun rest => (w.2, rest))) = none := by
    simp [words, after?, hne]
  rw [value]
  · simp only [scalar, hwords]
    split
    · rename_i h
      cases h
      simp at hc
    · rename_i h
      cases h
      simp at hc
    · rfl
  · rintro rest ⟨⟩
    simp at hc
  · rintro rest ⟨⟩
    simp at hc

/-- What is written for a text is at least as long as the text. -/
theorem length_le_length_flatMap_writeChar (chars : List Char) : chars.length ≤ (chars.flatMap writeChar).length := by
  induction chars with
  | nil => exact Nat.le_refl 0
  | cons c chars ih =>
    have hchar : 1 ≤ (writeChar c).length := by
      unfold writeChar
      split
      · exact Nat.le_add_left 1 1
      · split
        · exact Nat.le_add_left 1 _
        · exact Nat.le_refl 1
    rw [List.flatMap_cons, List.length_append, List.length_cons]
    omega

/-- A text that is written in quotes is read back, from after the opening quote. -/
theorem readString_writeChars (text : String) (rest : Glyphs) (nesting : Nat) {bound : Nat}
    (hbound : text.toList.length < bound) :
    readString nesting bound ((text.toList.flatMap writeChar).map some ++ some '"' :: rest) = .ok (.string text, rest) := by
  rw [readString, stringBody?_writeChars _ _ _ _ hbound]
  simp

/-- A text in quotes, as it is read. -/
theorem map_toList_writeString (text : String) (rest : Glyphs) :
    (writeString text).toList.map some ++ rest =
      some '"' :: ((text.toList.flatMap writeChar).map some ++ some '"' :: rest) := by
  simp [writeString]

/-- The number of characters of a text in quotes. -/
theorem length_writeString (text : String) : text.toList.length + 2 ≤ (writeString text).toList.length := by
  have hlength := length_le_length_flatMap_writeChar text.toList
  simp only [writeString, String.toList_ofList, List.cons_append, List.length_cons, List.length_append, List.length_nil]
  omega

/-- An integer is written as its digits. -/
theorem toList_write_integer (n : Nat) : (write (.integer n)).toList = Nat.toDigits 10 n := toList_toString n

/-- What is written for a plain value is read back. -/
theorem value_write {item : Json} (h : Plain item) {rest : Glyphs} (hrest : Ends rest) (nesting : Nat) {bound : Nat}
    (hbound : (write item).toList.length ≤ bound) :
    value nesting (bound + 1) ((write item).toList.map some ++ rest) = .ok (item, rest) := by
  cases h with
  | bool b =>
    cases b
    · rfl
    · rfl
  | string text => 
    have hlength := length_writeString text
    rw [write] at hbound ⊢
    rw [map_toList_writeString]
    exact readString_writeChars text rest nesting (by omega)
  | integer n hpos hlength =>
    have hread := unsigned_toDigits hpos hlength hrest
    obtain ⟨c, chars, hchars, hc⟩ := exists_toDigits_cons n
    rw [hchars, List.map_cons, List.cons_append] at hread
    rw [toList_write_integer, hchars, List.map_cons, List.cons_append, value_digit hc, hread]

/-! ## Objects -/

/-- No blank stands in front of a plain value. -/
theorem skipSpace_write {item : Json} (h : Plain item) (rest : Glyphs) :
    skipSpace ((write item).toList.map some ++ rest) = (write item).toList.map some ++ rest := by
  cases h with
  | bool b =>
    cases b
    · rfl
    · rfl
  | string text =>
    rw [write, map_toList_writeString]
    exact skipSpace_cons (by decide) _
  | integer n hpos hlength =>
    obtain ⟨c, chars, hchars, hc⟩ := exists_toDigits_cons n
    have hspace : isSpace c = false := by
      simp only [isSpace, Bool.or_eq_false_iff, beq_eq_false_iff_ne]
      refine ⟨⟨⟨?_, ?_⟩, ?_⟩, ?_⟩ <;> (rintro rfl; simp at hc)
    rw [toList_write_integer, hchars, List.map_cons, List.cons_append]
    exact skipSpace_cons hspace _

/-- A field of a plain value is read up to what ends it. Behind a comma the next field is read, and at a brace the object is. -/
theorem fields_write_append (name : String) {item : Json} (h : Plain item) (rest : Glyphs) (nesting : Nat) {bound : Nat}
    (done : Fields) (hbound : (writeString name ++ ":" ++ write item).toList.length ≤ bound + 1) :
    fields nesting (bound + 1) done ((writeString name ++ ":" ++ write item).toList.map some ++ some ',' :: rest) =
        fields nesting bound (done.add (.string name) item) (skipSpace rest) ∧
      fields nesting (bound + 1) done ((writeString name ++ ":" ++ write item).toList.map some ++ some '\x7d' :: rest) =
        .ok ((done.add (.string name) item).toJson, rest) := by
  have hname := length_writeString name
  have hlength : (writeString name ++ ":" ++ write item).toList.length =
      (writeString name).toList.length + 1 + (write item).toList.length := by
    simp
    omega
  obtain ⟨bound, rfl⟩ : ∃ b, bound = b + 1 := ⟨bound - 1, by omega⟩
  have hsplit : ∀ tail, (writeString name ++ ":" ++ write item).toList.map some ++ tail =
      (writeString name).toList.map some ++ some ':' :: ((write item).toList.map some ++ tail) := by
    simp
  have hvalue : ∀ tail, Ends tail → value nesting (bound + 1) ((write item).toList.map some ++ tail) = .ok (item, tail) :=
    fun tail htail => value_write h htail nesting (by omega)
  have hcolon : ∀ text, skipSpace (some ':' :: text) = some ':' :: text := skipSpace_cons (by decide)
  have hcomma : ∀ text, skipSpace (some ',' :: text) = some ',' :: text := skipSpace_cons (by decide)
  have hbrace : ∀ text, skipSpace (some '\x7d' :: text) = some '\x7d' :: text := skipSpace_cons (by decide)
  constructor
  · rw [hsplit, map_toList_writeString, fields, readString_writeChars name _ nesting (by omega)]
    simp only [hcolon, skipSpace_write h, hvalue _ ⟨_, _, rfl, Or.inl rfl⟩, hcomma]
  · rw [hsplit, map_toList_writeString, fields, readString_writeChars name _ nesting (by omega)]
    simp only [hcolon, skipSpace_write h, hvalue _ ⟨_, _, rfl, Or.inr rfl⟩, hbrace]

/-- What is written for the first of several fields stands in front of a comma. -/
theorem toList_intercalate_writeFields (name : String) (item : Json) (next : String × Json) (fs : List (String × Json)) :
    (",".intercalate (writeFields ((name, item) :: next :: fs))).toList =
      (writeString name ++ ":" ++ write item).toList ++ ',' :: (",".intercalate (writeFields (next :: fs))).toList := by
  obtain ⟨next, other⟩ := next
  simp [writeFields, String.intercalate_cons_cons]

/-- What is written for fields begins with the quote of the first name. -/
theorem exists_intercalate_writeFields {fs : List (String × Json)} (hne : fs ≠ []) :
    ∃ tail, (",".intercalate (writeFields fs)).toList = '"' :: tail := by
  have hquote : ∀ name : String, ∃ tail, (writeString name).toList = '"' :: tail := fun name => ⟨_, String.toList_ofList⟩
  match fs with
  | [] => exact absurd rfl hne
  | [(name, item)] =>
    obtain ⟨tail, htail⟩ := hquote name
    simp [writeFields, String.intercalate_singleton, htail]
  | (name, item) :: next :: fs =>
    obtain ⟨tail, htail⟩ := hquote name
    rw [toList_intercalate_writeFields]
    simp [htail]

/-- Fields of plain values are read up to the end of their object. -/
theorem fields_write {fs : List (String × Json)} (hne : fs ≠ []) (hplain : ∀ field ∈ fs, Plain field.2) (nesting : Nat)
    {bound : Nat} (done : List (String × Json)) (rest : Glyphs)
    (hbound : (",".intercalate (writeFields fs)).toList.length ≤ bound) :
    fields nesting bound ⟨done, false⟩ ((",".intercalate (writeFields fs)).toList.map some ++ some '\x7d' :: rest) =
      .ok (.object (done.reverse ++ fs), rest) := by
  induction fs generalizing bound done with
  | nil => exact absurd rfl hne
  | cons field fs ih =>
    obtain ⟨bound, rfl⟩ : ∃ b, bound = b + 1 := by
      obtain ⟨tail, htail⟩ := exists_intercalate_writeFields hne
      rw [htail, List.length_cons] at hbound
      exact ⟨bound - 1, by omega⟩
    obtain ⟨name, item⟩ := field
    obtain ⟨hitem, hplain⟩ : Plain item ∧ ∀ field ∈ fs, Plain field.2 := List.forall_mem_cons.mp hplain
    cases fs with
    | nil =>
      simp only [writeFields, String.intercalate_singleton] at hbound ⊢
      rw [(fields_write_append name hitem rest nesting _ hbound).2]
      simp [Fields.add, Fields.toJson]
    | cons next fs =>
      rw [toList_intercalate_writeFields, List.length_append, List.length_cons] at hbound
      have hnext := ih (List.cons_ne_nil _ _) hplain ((name, item) :: done) (show _ ≤ bound by omega)
      obtain ⟨tail, htail⟩ := exists_intercalate_writeFields (List.cons_ne_nil next fs)
      rw [toList_intercalate_writeFields, List.map_append, List.append_assoc, List.map_cons, List.cons_append,
        (fields_write_append name hitem _ nesting _ (by omega)).1]
      rw [htail, List.map_cons, List.cons_append] at hnext ⊢
      rw [skipSpace_cons (by decide), Fields.add, hnext]
      simp

/-- An object of plain values is read back from what is written for it. -/
theorem ofText_write_object {fs : List (String × Json)} (hne : fs ≠ []) (hplain : ∀ field ∈ fs, Plain field.2) :
    ofText (write (.object fs)) = .ok (.object fs) := by
  obtain ⟨tail, htail⟩ := exists_intercalate_writeFields hne
  have hwritten : write (.object fs) = String.ofList ('\x7b' :: '"' :: (tail ++ ['\x7d'])) := by
    rw [← String.toList_inj, String.toList_ofList]
    simp [write, htail]
  have hdecode := decodeText?_cons_cons (c := '\x7b') (d := '"') (by decide) (by decide) (tail ++ ['\x7d'])
  obtain ⟨nesting, hnesting⟩ : ∃ n, maxNesting = n + 1 := ⟨963, rfl⟩
  have hfields : ∀ bound, tail.length < bound →
      fields nesting bound {} (some '"' :: (tail.map some ++ [some '\x7d'])) = .ok (.object fs, []) := by
    intro bound hbound
    have hlength : (",".intercalate (writeFields fs)).toList.length ≤ bound := by
      rw [htail, List.length_cons]
      omega
    have hread := fields_write hne hplain nesting [] [] hlength
    rw [htail, List.map_cons, List.cons_append] at hread
    exact hread
  have hvalue : ∀ bound, tail.length < bound →
      value maxNesting (bound + 1) (('\x7b' :: '"' :: (tail ++ ['\x7d'])).map some) = .ok (.object fs, []) := by
    intro bound hbound
    have hread := hfields bound hbound
    simp only [List.map_cons, List.map_append, List.map_nil]
    rw [hnesting, value, skipSpace_cons (by decide)]
    -- what stands behind the brace is not the end of the object
    simp [hread]
  have hskip : skipSpace (('\x7b' :: '"' :: (tail ++ ['\x7d'])).map some) = ('\x7b' :: '"' :: (tail ++ ['\x7d'])).map some :=
    skipSpace_cons (by decide) _
  simp only [ofText, hwritten, hdecode, ofGlyphs, hskip]
  rw [hvalue]
  · rfl
  · simp
    omega

end Brainfuck.Json
