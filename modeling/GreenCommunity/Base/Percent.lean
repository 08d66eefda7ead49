import Mathlib.Data.List.Basic

/-!
# Percent-encoding

`quote`, `quote_plus` and `unquote` of Python's `urllib.parse`, on the characters of a
string.  Encoding goes through the bytes of UTF-8: a byte stays if its character is
safe and becomes `%` with two hex digits if not.  Decoding replaces the escapes in
every run of ASCII characters by their bytes and reads these as UTF-8, with U+FFFD for
what is not.

Every byte that is quoted is read back as it was.  But `quote_plus` writes a space as
`+`, and `unquote` leaves a `+` as it is, so one after the other they turn spaces into
plus signs and change nothing else (`unquote_quotePlus`).
-/

namespace GreenCommunity.Base.Percent

/-! ## Encoding -/

def utf8 (text : List Char) : List UInt8 := text.flatMap String.utf8EncodeChar

def hexDigit (n : Nat) : Char := Char.ofNat (if n < 10 then n + 48 else n + 55)

/-- `_ALWAYS_SAFE`. -/
def alwaysSafe (c : Char) : Bool := c.isAlphanum || "_.-~".toList.contains c

def quoteByte (safe : Char → Bool) (b : UInt8) : List Char :=
  let c := Char.ofNat b.toNat
  if b < 128 ∧ safe c then [c] else ['%', hexDigit (b.toNat / 16), hexDigit (b.toNat % 16)]

/-- `quote(string, safe)`. -/
def quote (safe : Char → Bool) (text : List Char) : List Char :=
  (utf8 text).flatMap (quoteByte fun c => alwaysSafe c || safe c)

def spaceToPlus (c : Char) : Char := if c = ' ' then '+' else c

/-- `quote_plus(string)`. -/
def quotePlus (text : List Char) : List Char :=
  if ' ' ∈ text then
    (quote (fun c => c = ' ') text).map spaceToPlus
  else
    quote (fun _ => false) text

/-! ## Decoding -/

def hexValue (c : Char) : Option Nat :=
  if '0' ≤ c ∧ c ≤ '9' then some (c.toNat - 48)
  else if 'A' ≤ c ∧ c ≤ 'F' then some (c.toNat - 55)
  else if 'a' ≤ c ∧ c ≤ 'f' then some (c.toNat - 87)
  else none

/-- `unquote_to_bytes`. -/
def unquoteToBytes : List Char → List UInt8
  | [] => []
  | '%' :: high :: low :: text =>
      match hexValue high, hexValue low with
      | some x, some y => UInt8.ofNat (16 * x + y) :: unquoteToBytes text
      | _, _ => String.utf8EncodeChar '%' ++ unquoteToBytes (high :: low :: text)
  | c :: text => String.utf8EncodeChar c ++ unquoteToBytes text

def isContinuation (b : UInt8) : Bool := 0x80 ≤ b && b ≤ 0xBF

/-- How many of the bytes after `lead` begin no character of their own and are replaced
together with it, where they do not complete it. -/
def replacedWith (lead : UInt8) (bytes : List UInt8) : Nat :=
  let needed := if lead < 0xC2 then 0 else if lead < 0xE0 then 1 else if lead < 0xF0 then 2
    else if lead < 0xF5 then 3 else 0
  let fits (b : UInt8) : Bool :=
    if lead = 0xE0 then 0xA0 ≤ b && b ≤ 0xBF
    else if lead = 0xED then 0x80 ≤ b && b ≤ 0x9F
    else if lead = 0xF0 then 0x90 ≤ b && b ≤ 0xBF
    else if lead = 0xF4 then 0x80 ≤ b && b ≤ 0x8F
    else isContinuation b
  match bytes.take needed with
  | [] => 0
  | second :: rest => if fits second then (rest.takeWhile isContinuation).length + 1 else 0

/-- `bytes.decode("utf-8", "replace")`. -/
def decodeUtf8 : List UInt8 → List Char
  | [] => []
  | b :: bytes =>
      match (b :: bytes).toByteArray.utf8DecodeChar? 0 with
      | some c => c :: decodeUtf8 (bytes.drop (c.utf8Size - 1))
      | none => Char.ofNat 0xFFFD :: decodeUtf8 (bytes.drop (replacedWith b bytes))
termination_by bytes => bytes.length
decreasing_by all_goals simp only [List.length_drop, List.length_cons]; omega

def isAscii (c : Char) : Bool := c.toNat < 128

/-- The parts of `_generate_unquoted_parts`, joined. -/
def unquoteParts : List Char → List Char
  | [] => []
  | c :: text =>
      if isAscii c then
        decodeUtf8 (unquoteToBytes (c :: text.takeWhile isAscii)) ++
          unquoteParts (text.dropWhile isAscii)
      else
        c :: unquoteParts text
termination_by text => text.length
decreasing_by
  · exact Nat.lt_succ_of_le (List.dropWhile_suffix isAscii).length_le
  · exact Nat.lt_succ_self _

/-- `unquote(string)`. -/
def unquote (text : List Char) : List Char :=
  if '%' ∈ text then unquoteParts text else text

/-! ## Bytes and characters -/

/-- An ASCII byte stands for itself only. -/
theorem ascii_byte {c : Char} {b : UInt8} (hb : b ∈ String.utf8EncodeChar c)
    (hascii : b.toNat < 128) : b.toNat = c.toNat := by
  rw [String.utf8EncodeChar] at hb
  have hc : c.toNat = c.val.toNat := rfl
  split at hb
  · obtain rfl := List.mem_singleton.mp hb
    simp only [UInt8.toNat_ofNat'] at hascii ⊢
    omega
  · exfalso
    split at hb
    · simp only [List.mem_cons, List.not_mem_nil, or_false] at hb
      rcases hb with rfl | rfl <;> simp only [UInt8.toNat_ofNat'] at hascii <;> omega
    · split at hb
      · simp only [List.mem_cons, List.not_mem_nil, or_false] at hb
        rcases hb with rfl | rfl | rfl <;> simp only [UInt8.toNat_ofNat'] at hascii <;> omega
      · simp only [List.mem_cons, List.not_mem_nil, or_false] at hb
        rcases hb with rfl | rfl | rfl | rfl <;>
          simp only [UInt8.toNat_ofNat'] at hascii <;> omega

theorem encode_ascii {c : Char} (hc : isAscii c = true) :
    String.utf8EncodeChar c = [UInt8.ofNat c.toNat] := by
  rw [isAscii, decide_eq_true_iff] at hc
  rw [String.utf8EncodeChar]
  exact if_pos (Nat.le_of_lt_succ hc)

@[simp] theorem utf8_nil : utf8 [] = [] := rfl

theorem utf8_append (text rest : List Char) : utf8 (text ++ rest) = utf8 text ++ utf8 rest :=
  List.flatMap_append

@[simp] theorem utf8_cons (c : Char) (text : List Char) :
    utf8 (c :: text) = String.utf8EncodeChar c ++ utf8 text := rfl

/-- What is encoded is read back, whatever comes after it. -/
theorem decodeUtf8_utf8 (text : List Char) (bytes : List UInt8) :
    decodeUtf8 (utf8 text ++ bytes) = text ++ decodeUtf8 bytes := by
  induction text with
  | nil => rfl
  | cons c text ih =>
      have hdecoded : (String.utf8EncodeChar c ++ (utf8 text ++ bytes)).toByteArray.utf8DecodeChar? 0
          = some c := by
        rw [List.toByteArray_append]
        exact ByteArray.utf8DecodeChar?_utf8EncodeChar_append
      have hlength := String.length_utf8EncodeChar c
      rw [utf8_cons, List.append_assoc]
      cases hbytes : String.utf8EncodeChar c with
      | nil =>
          rw [hbytes] at hlength
          exact absurd hlength (Nat.ne_of_lt c.utf8Size_pos)
      | cons b rest =>
          rw [hbytes] at hdecoded hlength
          rw [List.cons_append, decodeUtf8]
          rw [List.cons_append] at hdecoded
          simp only [hdecoded]
          rw [← hlength, List.length_cons, Nat.add_sub_cancel, List.drop_left, ih]
          rfl

/-! ## Escapes are read back -/

theorem hexValue_hexDigit {n : Nat} (hn : n < 16) : hexValue (hexDigit n) = some n := by
  have h : ∀ n : Fin 16, hexValue (hexDigit n) = some n.val := by decide
  exact h ⟨n, hn⟩

theorem hexDigit_safe {n : Nat} (hn : n < 16) : alwaysSafe (hexDigit n) = true := by
  have h : ∀ n : Fin 16, alwaysSafe (hexDigit n) = true := by decide
  exact h ⟨n, hn⟩

theorem toNat_asciiChar {b : UInt8} (hb : b < 128) : (Char.ofNat b.toNat).toNat = b.toNat := by
  have hlt : b.toNat < 128 := hb
  rw [Char.ofNat, dif_pos (Or.inl (by omega))]
  rfl

theorem encode_asciiChar {b : UInt8} (hb : b < 128) :
    String.utf8EncodeChar (Char.ofNat b.toNat) = [b] := by
  have hlt : b.toNat < 128 := hb
  rw [encode_ascii, toNat_asciiChar hb, UInt8.ofNat_toNat]
  rw [isAscii, toNat_asciiChar hb]
  exact decide_eq_true hlt

theorem unquoteToBytes_cons {c : Char} (hc : c ≠ '%') (text : List Char) :
    unquoteToBytes (c :: text) = String.utf8EncodeChar c ++ unquoteToBytes text := by
  rw [unquoteToBytes]
  intro high low rest hpercent
  exact absurd hpercent hc

theorem unquoteToBytes_escape (b : UInt8) (text : List Char) :
    unquoteToBytes ('%' :: hexDigit (b.toNat / 16) :: hexDigit (b.toNat % 16) :: text) =
      b :: unquoteToBytes text := by
  have hb : b.toNat < 256 := b.toNat_lt
  have hhigh : b.toNat / 16 < 16 := by omega
  have hlow : b.toNat % 16 < 16 := Nat.mod_lt _ (by decide)
  rw [unquoteToBytes, hexValue_hexDigit hhigh, hexValue_hexDigit hlow]
  dsimp only
  rw [Nat.div_add_mod, UInt8.ofNat_toNat]

theorem unquoteToBytes_quoteByte {safe : Char → Bool} (hsafe : safe '%' = false) (b : UInt8)
    (text : List Char) :
    unquoteToBytes (quoteByte safe b ++ text) = b :: unquoteToBytes text := by
  rw [quoteByte]
  split
  next h =>
    obtain ⟨hb, hc⟩ := h
    have hne : Char.ofNat b.toNat ≠ '%' := by
      intro heq
      rw [heq, hsafe] at hc
      cases hc
    rw [List.singleton_append, unquoteToBytes_cons hne, encode_asciiChar hb]
    rfl
  next => exact unquoteToBytes_escape b text

/-- The bytes of quoted text are those of the text. -/
theorem unquoteToBytes_flatMap {code : UInt8 → List Char} {f : UInt8 → UInt8}
    (hcode : ∀ b text, unquoteToBytes (code b ++ text) = f b :: unquoteToBytes text)
    (bytes : List UInt8) (text : List Char) :
    unquoteToBytes (bytes.flatMap code ++ text) = bytes.map f ++ unquoteToBytes text := by
  induction bytes with
  | nil => rfl
  | cons b bytes ih =>
      rw [List.flatMap_cons, List.append_assoc, hcode, ih]
      rfl

theorem unquoteToBytes_quote {safe : Char → Bool} (hsafe : safe '%' = false)
    (text rest : List Char) :
    unquoteToBytes (quote safe text ++ rest) = utf8 text ++ unquoteToBytes rest := by
  have hpercent : (alwaysSafe '%' || safe '%') = false := by
    rw [hsafe]
    decide
  have hcode : ∀ b rest, unquoteToBytes (quoteByte (fun c => alwaysSafe c || safe c) b ++ rest) =
      id b :: unquoteToBytes rest := unquoteToBytes_quoteByte hpercent
  rw [quote, unquoteToBytes_flatMap hcode, List.map_id]

/-! ## Spaces -/

def spaceToPlusByte (b : UInt8) : UInt8 := if b = 32 then 43 else b

theorem map_spaceToPlusByte (text : List Char) :
    (utf8 text).map spaceToPlusByte = utf8 (text.map spaceToPlus) := by
  induction text with
  | nil => rfl
  | cons c text ih =>
      rw [utf8_cons, List.map_append, ih, List.map_cons, utf8_cons]
      congr 1
      by_cases hc : c = ' '
      · subst hc
        decide
      · rw [spaceToPlus, if_neg hc]
        refine (List.map_congr_left fun b hb => ?_).trans (List.map_id _)
        refine if_neg ?_
        rintro rfl
        exact hc (Char.toNat_inj.mp (ascii_byte hb (by decide)).symm)

/-- Only the space itself is written with a space. -/
theorem spaceToPlus_quoteByte {safe : Char → Bool} {b : UInt8} (hb : b ≠ 32) :
    (quoteByte safe b).map spaceToPlus = quoteByte safe b := by
  refine (List.map_congr_left fun c hc => ?_).trans (List.map_id _)
  refine if_neg ?_
  rintro rfl
  rw [quoteByte] at hc
  have hhex : ∀ {n : Nat}, n < 16 → ' ' ≠ hexDigit n := by
    intro n hn heq
    exact absurd (hexDigit_safe hn) (heq ▸ by decide)
  split at hc
  next h =>
    have hspace := toNat_asciiChar h.1
    rw [← List.mem_singleton.mp hc] at hspace
    exact hb (UInt8.toNat_inj.mp hspace.symm)
  next =>
    have hlt : b.toNat < 256 := b.toNat_lt
    simp only [List.mem_cons, List.not_mem_nil, or_false] at hc
    rcases hc with hc | hc | hc
    · exact absurd hc (by decide)
    · exact hhex (by omega) hc
    · exact hhex (Nat.mod_lt _ (by decide)) hc

theorem unquoteToBytes_quotePlus (text rest : List Char) :
    unquoteToBytes (quotePlus text ++ rest) =
      utf8 (text.map spaceToPlus) ++ unquoteToBytes rest := by
  rw [quotePlus]
  split
  next hspace =>
    have hcode : ∀ b rest, unquoteToBytes
        ((quoteByte (fun c => alwaysSafe c || decide (c = ' ')) b).map spaceToPlus ++ rest) =
          spaceToPlusByte b :: unquoteToBytes rest := by
      intro b rest
      by_cases hb : b = 32
      · subst hb
        exact unquoteToBytes_cons (by decide) rest
      · rw [spaceToPlus_quoteByte hb, unquoteToBytes_quoteByte (by decide), spaceToPlusByte,
          if_neg hb]
    rw [quote, List.map_flatMap, unquoteToBytes_flatMap hcode, map_spaceToPlusByte]
  next hnone =>
    have hsame : text.map spaceToPlus = text := by
      refine (List.map_congr_left fun c hc => ?_).trans (List.map_id _)
      refine if_neg ?_
      rintro rfl
      exact hnone hc
    rw [unquoteToBytes_quote rfl, hsame]

/-! ## The characters of quoted text -/

theorem mem_quoteByte {safe : Char → Bool} {b : UInt8} {c : Char} (h : c ∈ quoteByte safe b) :
    safe c = true ∨ c = '%' ∨ alwaysSafe c = true := by
  rw [quoteByte] at h
  split at h
  next hsafe =>
    rw [List.mem_singleton.mp h]
    exact Or.inl hsafe.2
  next =>
    have hlt : b.toNat < 256 := b.toNat_lt
    simp only [List.mem_cons, List.not_mem_nil, or_false] at h
    rcases h with rfl | rfl | rfl
    · exact Or.inr (Or.inl rfl)
    · exact Or.inr (Or.inr (hexDigit_safe (by omega)))
    · exact Or.inr (Or.inr (hexDigit_safe (Nat.mod_lt _ (by decide))))

theorem mem_quote {safe : Char → Bool} {text : List Char} {c : Char}
    (h : c ∈ quote safe text) : safe c = true ∨ c = '%' ∨ alwaysSafe c = true := by
  obtain ⟨b, _, hc⟩ := List.mem_flatMap.mp h
  rcases mem_quoteByte hc with hsafe | hrest
  · rcases Bool.or_eq_true _ _ ▸ hsafe with hsafe | hsafe
    · exact Or.inr (Or.inr hsafe)
    · exact Or.inl hsafe
  · exact Or.inr hrest

theorem mem_quotePlus {text : List Char} {c : Char} (h : c ∈ quotePlus text) :
    c = '+' ∨ c = '%' ∨ alwaysSafe c = true := by
  rw [quotePlus] at h
  split at h
  next =>
    obtain ⟨d, hd, rfl⟩ := List.mem_map.mp h
    rw [spaceToPlus]
    split
    next => exact Or.inl rfl
    next hne =>
      rcases mem_quote hd with hspace | hrest
      · exact absurd (of_decide_eq_true hspace) hne
      · exact Or.inr hrest
  next =>
    rcases mem_quote h with hsafe | hrest
    · cases hsafe
    · exact Or.inr hrest

/-- No delimiter of a URL occurs in quoted text. -/
theorem notMem_quotePlus {c : Char} (hsafe : alwaysSafe c = false) (hpercent : c ≠ '%')
    (hplus : c ≠ '+') (text : List Char) : c ∉ quotePlus text := by
  intro h
  rcases mem_quotePlus h with heq | heq | hs
  · exact hplus heq
  · exact hpercent heq
  · rw [hsafe] at hs
    cases hs

theorem isAscii_of_alwaysSafe {c : Char} (h : alwaysSafe c = true) : isAscii c = true := by
  rw [isAscii, decide_eq_true_iff]
  rw [alwaysSafe, Bool.or_eq_true] at h
  rcases h with h | h
  · have hbounds : (c.val ≥ 65 ∧ c.val ≤ 90 ∨ c.val ≥ 97 ∧ c.val ≤ 122) ∨
        c.val ≥ 48 ∧ c.val ≤ 57 := by
      have hunfold : c.isAlphanum = ((decide (c.val ≥ 65 ∧ c.val ≤ 90) ||
          (decide (c.val ≥ 97) && decide (c.val ≤ 122))) ||
            (decide (c.val ≥ 48) && decide (c.val ≤ 57))) := rfl
      simpa only [hunfold, Bool.or_eq_true, Bool.and_eq_true, decide_eq_true_iff] using h
    have hc : c.toNat = c.val.toNat := rfl
    rcases hbounds with (h | h) | h <;>
    · have hle : c.val.toNat ≤ 122 := Nat.le_trans (UInt32.le_iff_toNat_le.mp h.2) (by decide)
      omega
  · have hmem : c ∈ "_.-~".toList := by simpa using h
    have hall : ∀ c ∈ "_.-~".toList, c.toNat < 128 := by simp
    exact hall c hmem

theorem isAscii_quotePlus {text : List Char} {c : Char} (h : c ∈ quotePlus text) :
    isAscii c = true := by
  rcases mem_quotePlus h with rfl | rfl | hsafe
  · decide
  · decide
  · exact isAscii_of_alwaysSafe hsafe

/-! ## Unquoting -/

theorem unquoteToBytes_plain {text : List Char} (h : '%' ∉ text) :
    unquoteToBytes text = utf8 text := by
  induction text with
  | nil => rfl
  | cons c text ih =>
      have hc : c ≠ '%' := fun heq => h (heq ▸ List.mem_cons_self)
      rw [unquoteToBytes_cons hc, utf8_cons, ih fun hmem => h (List.mem_cons_of_mem c hmem)]

@[simp] theorem decodeUtf8_nil : decodeUtf8 [] = [] := by rw [decodeUtf8]

theorem decodeUtf8_exact (text : List Char) : decodeUtf8 (utf8 text) = text := by
  have h := decodeUtf8_utf8 text []
  rwa [List.append_nil, decodeUtf8_nil, List.append_nil] at h

/-- Text without escapes is its own reading, run by run. -/
theorem unquoteParts_plain {text : List Char} (h : '%' ∉ text) : unquoteParts text = text := by
  fun_induction unquoteParts text with
  | case1 => rfl
  | case2 c text _ ih =>
      have hrun : '%' ∉ c :: text.takeWhile isAscii := by
        intro hmem
        rcases List.mem_cons.mp hmem with heq | hmem
        · exact h (heq ▸ List.mem_cons_self)
        · exact h (List.mem_cons_of_mem c ((List.takeWhile_prefix _).subset hmem))
      have hrest : '%' ∉ text.dropWhile isAscii := fun hmem =>
        h (List.mem_cons_of_mem c ((List.dropWhile_suffix _).subset hmem))
      rw [unquoteToBytes_plain hrun, decodeUtf8_exact, ih hrest, List.cons_append,
        List.takeWhile_append_dropWhile]
  | case3 c text _ ih => rw [ih fun hmem => h (List.mem_cons_of_mem c hmem)]

theorem unquote_eq_unquoteParts (text : List Char) : unquote text = unquoteParts text := by
  rw [unquote]
  split
  next => rfl
  next h => exact (unquoteParts_plain h).symm

/-- ASCII text is the beginning of one run. -/
theorem unquoteParts_ascii {text : List Char} (hne : text ≠ [])
    (hascii : ∀ c ∈ text, isAscii c = true) (rest : List Char) :
    unquoteParts (text ++ rest) =
      decodeUtf8 (unquoteToBytes (text ++ rest.takeWhile isAscii)) ++
        unquoteParts (rest.dropWhile isAscii) := by
  cases text with
  | nil => exact absurd rfl hne
  | cons c text =>
      have htext : ∀ d ∈ text, isAscii d = true :=
        fun d hd => hascii d (List.mem_cons_of_mem c hd)
      rw [List.cons_append, unquoteParts, if_pos (hascii c List.mem_cons_self),
        List.takeWhile_append_of_pos htext, List.dropWhile_append_of_pos htext]
      rfl

theorem unquote_quotePlus (text : List Char) :
    unquote (quotePlus text) = text.map spaceToPlus := by
  have hbytes := unquoteToBytes_quotePlus text []
  rw [List.append_nil, unquoteToBytes, List.append_nil] at hbytes
  have hdecoded : decodeUtf8 (unquoteToBytes (quotePlus text)) = text.map spaceToPlus := by
    rw [hbytes, decodeUtf8_exact]
  rw [unquote_eq_unquoteParts, ← hdecoded]
  by_cases hnil : quotePlus text = []
  · rw [hnil, unquoteParts, unquoteToBytes, decodeUtf8_nil]
  · have hparts := unquoteParts_ascii hnil (fun c hc => isAscii_quotePlus hc) []
    rw [List.append_nil, List.takeWhile_nil, List.append_nil, List.dropWhile_nil,
      unquoteParts, List.append_nil] at hparts
    exact hparts

end GreenCommunity.Base.Percent
