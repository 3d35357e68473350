import Energiminer.Misc.LittleEndian
import Energiminer.Protocol.Proofs.PoolURI

/-!
# URIs with encoded parts

Percent-encoding leaves letters, digits and `%`, so no encoded part holds a delimiter, and
`urlDecode` gives the bytes of the part again: it has two digits for every escape, so the variable
that it does not initialise is never read.
-/

namespace Energiminer.Protocol
open Misc

/-! ## Percent-encoding -/

/-- The characters of a byte string. -/
def chars (bytes : List Byte) : List Char := bytes.map fun b => charOf b.toNat

/-- A hexadecimal digit, in upper or in lower case. -/
def escapeDigit (upper : Bool) (n : Nat) : Char := if upper then (hexDigit n).toUpper else hexDigit n

def percentEncodeByte (upper : Bool) (b : Byte) : List Char :=
  if (charOf b.toNat).isAlphanum then [charOf b.toNat]
  else ['%', escapeDigit upper (b.toNat / 16), escapeDigit upper (b.toNat % 16)]

/-- The bytes, those that are not an ASCII letter or digit as escapes. -/
def percentEncode (upper : Bool) (bytes : List Byte) : List Char :=
  bytes.flatMap (percentEncodeByte upper)

/-- The characters of an encoded part. -/
def isPlain (c : Char) : Bool := c.isAlphanum || c = '%'

theorem isPlain_percentEncodeByte : ∀ (upper : Bool) (b : Byte),
    (percentEncodeByte upper b).all isPlain = true := by decide +kernel

theorem sscanfHex_escapeDigit : ∀ (upper : Bool) (b : Byte),
    sscanfHex (cStr [escapeDigit upper (b.toNat / 16), escapeDigit upper (b.toNat % 16)]) =
      some (b.setWidth 32) := by decide +kernel

section
variable {upper : Bool} {bytes : List Byte} {c : Char}

theorem isPlain_of_mem (h : c ∈ percentEncode upper bytes) : isPlain c = true := by
  obtain ⟨b, -, hc⟩ := List.mem_flatMap.mp h
  exact List.all_eq_true.mp (isPlain_percentEncodeByte upper b) c hc

theorem isPlain_ne {d : Char} (h : isPlain c = true) (hd : isPlain d = false) : c ≠ d := by
  rintro rfl
  rw [h] at hd
  cases hd

theorem noDelimiter_of_isPlain (h : isPlain c = true) : noDelimiter c = true := by
  simp [noDelimiter, isPlain_ne h (show isPlain ':' = false by decide),
    isPlain_ne h (show isPlain '@' = false by decide),
    isPlain_ne h (show isPlain '/' = false by decide)]

/-- `urlDecode` gives the bytes again, whatever the variable holds. -/
theorem urlDecodeFrom_percentEncode (ii : BitVec 32) :
    urlDecodeFrom 0 ii (percentEncode upper bytes) = chars bytes := by
  induction bytes generalizing ii with
  | nil => rfl
  | cons b bytes ih =>
    rw [percentEncode, List.flatMap_cons, ← percentEncode, percentEncodeByte, chars, List.map_cons,
      ← chars]
    split
    next halnum =>
      have hpercent : charOf b.toNat ≠ '%' := by
        intro heq
        rw [heq] at halnum
        exact absurd halnum (by decide)
      have hplus : charOf b.toNat ≠ '+' := by
        intro heq
        rw [heq] at halnum
        exact absurd halnum (by decide)
      rw [List.singleton_append, urlDecodeFrom, if_neg hpercent, if_neg hplus, ih]
    next =>
      rw [List.cons_append, List.cons_append, List.singleton_append, urlDecodeFrom, if_pos rfl,
        List.take_succ_cons, List.take_succ_cons, List.take_zero, sscanfHex_escapeDigit]
      dsimp only [Option.getD_some]
      rw [urlDecodeFrom, urlDecodeFrom, ih, BitVec.toNat_setWidth, Nat.mod_eq_of_lt (by omega)]

theorem percentEncode_ne_nil (h : bytes ≠ []) : percentEncode upper bytes ≠ [] := by
  obtain ⟨b, bytes, rfl⟩ := List.exists_cons_of_ne_nil h
  intro hnil
  rw [percentEncode, List.flatMap_cons, List.append_eq_nil_iff, percentEncodeByte] at hnil
  split at hnil
  next => cases hnil.1
  next => cases hnil.1

end

/-! ## Round trip -/

/-- The characters of a scheme in lower case. -/
def isLowerSchemeChar (c : Char) : Bool := c.isLower || c.isDigit || c = '+' || c = '.' || c = '-'

/-- The text with encoded parts. -/
def encodedText (upper : Bool) (scheme : List Char) (user password host : List Byte) (port : Nat)
    (path : List Byte) : UriText where
  scheme := scheme
  userinfo := some (percentEncode upper user, some (percentEncode upper password))
  host := percentEncode upper host
  port := some (Nat.toDigits 10 port)
  tail := some ⟨percentEncode upper path, none, none⟩

section
variable {upper : Bool} {scheme : List Char} {user password host path : List Byte} {port : Nat}

theorem isSchemeChar_of_lower {c : Char} (h : isLowerSchemeChar c = true) :
    isSchemeChar c = true ∧ c.toLower = c := by
  constructor
  · have halpha : c.isAlpha = (c.isUpper || c.isLower) := rfl
    simp only [isLowerSchemeChar, Bool.or_eq_true, decide_eq_true_eq] at h
    simp only [isSchemeChar, halpha, Bool.or_eq_true, decide_eq_true_eq]
    tauto
  · have hupper : ∀ n < 26, isLowerSchemeChar (Char.ofNat (65 + n)) = false := by decide
    refine dif_neg fun hrange => ?_
    obtain ⟨n, hn, rfl⟩ := exists_upper hrange
    rw [hupper n hn] at h
    cases h

theorem isDigit_of_mem_port {c : Char} (h : c ∈ Nat.toDigits 10 port) : c.isDigit = true :=
  Nat.isDigit_of_mem_toDigits (by decide) (by decide) h

theorem decNumber_toDigits (port : Nat) : decNumber (Nat.toDigits 10 port) = port :=
  Nat.ofDigitChars_toDigits (by decide) (by decide)

theorem isPort_toDigits (hport : port < 2 ^ 16) : UriText.isPort (Nat.toDigits 10 port) = true := by
  rw [UriText.isPort_iff, decNumber_toDigits]
  exact ⟨Nat.toDigits_ne_nil, fun c hc => isDigit_of_mem_port hc, by omega⟩

theorem scanned_encodedText (hscheme : ∀ c ∈ scheme, isLowerSchemeChar c = true) :
    (encodedText upper scheme user password host port path).Scanned where
  scheme c hc := (isSchemeChar_of_lower (hscheme c hc)).1
  user info hinfo c hc := by
    cases hinfo
    exact noDelimiter_of_isPlain (isPlain_of_mem hc)
  password info hinfo x hx c hc := by
    cases hinfo
    cases hx
    exact (ne_of_noDelimiter (noDelimiter_of_isPlain (isPlain_of_mem hc))).2
  noUserinfo hnone := by cases hnone
  host := by
    have hhead : (percentEncode upper host ++ ':' :: (Nat.toDigits 10 port ++
        UriText.tailText (some ⟨percentEncode upper path, none, none⟩))).head? ≠ some '[' := by
      intro hsome
      cases hhost : percentEncode upper host with
      | nil =>
        rw [hhost] at hsome
        cases hsome
      | cons c rest =>
        rw [hhost] at hsome
        cases hsome
        have hplain := isPlain_of_mem (hhost ▸ List.mem_cons_self : '[' ∈ percentEncode upper host)
        exact absurd hplain (by decide)
    refine (hostSpan_of_ne hhead).trans (span_append (fun c hc => ?_) ?_)
    · obtain ⟨hcolon, -, hslash⟩ := ne_of_noDelimiter (noDelimiter_of_isPlain (isPlain_of_mem hc))
      simp [hcolon, hslash]
    · rw [stops_cons]
      decide
  port x hx c hc := by
    cases hx
    rintro rfl
    exact absurd (isDigit_of_mem_port hc) (by decide)
  tail tail htail := by
    cases htail
    refine ⟨fun c hc => ?_, fun query hquery => absurd hquery (Option.not_mem_none query)⟩
    have hplain := isPlain_of_mem hc
    exact ⟨isPlain_ne hplain (by decide), isPlain_ne hplain (by decide)⟩

theorem noNul_encodedText (hscheme : ∀ c ∈ scheme, isLowerSchemeChar c = true) :
    '\x00' ∉ (encodedText upper scheme user password host port path).text := by
  have hplain : ∀ bytes, '\x00' ∉ percentEncode upper bytes := fun bytes h =>
    absurd (isPlain_of_mem h) (by decide)
  have hdigits : '\x00' ∉ Nat.toDigits 10 port := fun h =>
    absurd (isDigit_of_mem_port h) (by decide)
  have hnul : '\x00' ∉ scheme := fun h => absurd (hscheme _ h) (by decide)
  simp [encodedText, UriText.text, UriText.authority, UriText.userinfoText, UriText.tailText,
    UriTail.text, optText, hplain, hdigits, hnul]

end

/-- Encoded parts are read as the bytes that they stand for. -/
theorem parse_encoded (junk : List Char → BitVec 32) (upper : Bool) (scheme : List Char)
    (user password host path : List Byte) (port : BitVec 16)
    (hscheme : ∀ c ∈ scheme, isLowerSchemeChar c = true) (hpath : path ≠ []) :
    let u := URI.parse junk (scheme ++ "://".toList ++ percentEncode upper user ++ ":".toList ++
      percentEncode upper password ++ "@".toList ++ percentEncode upper host ++ ":".toList ++
      Nat.toDigits 10 port.toNat ++ "/".toList ++ percentEncode upper path)
    u.valid = true ∧ u.scheme = scheme ∧ u.username = chars user ∧ u.password = chars password ∧
      u.host = chars host ∧ u.port = port ∧ u.path = '/' :: chars path := by
  have htext : scheme ++ "://".toList ++ percentEncode upper user ++ ":".toList ++
      percentEncode upper password ++ "@".toList ++ percentEncode upper host ++ ":".toList ++
      Nat.toDigits 10 port.toNat ++ "/".toList ++ percentEncode upper path =
        (encodedText upper scheme user password host port.toNat path).text := by
    simp [encodedText, UriText.text, UriText.authority, UriText.userinfoText, UriText.tailText,
      UriTail.text, optText]
  have hport := UriText.extractPort_of_isPort (isPort_toDigits port.isLt)
  have hdecode : ∀ bytes, decodeText junk (percentEncode upper bytes) = chars bytes := fun bytes =>
    urlDecodeFrom_percentEncode _
  have hslash : decodeText junk ('/' :: percentEncode upper path) = '/' :: chars path := by
    rw [decodeText, urlDecode, urlDecodeFrom, if_neg (by decide), if_neg (by decide),
      urlDecodeFrom_percentEncode]
  have hlower : scheme.map Char.toLower = scheme := by
    rw [List.map_congr_left fun c hc => (isSchemeChar_of_lower (hscheme c hc)).2]
    exact List.map_id' scheme
  rw [htext, parse_text junk (scanned_encodedText hscheme)
    (cStr_eq (noNul_encodedText hscheme)).symm]
  dsimp only
  rw [UriText.read, encodedText, URI.withPort, hport]
  dsimp only
  rw [if_neg Bool.false_ne_true, URI.withTail]
  dsimp only
  refine ⟨rfl, hlower, hdecode user, hdecode password, hdecode host, ?_, ?_⟩
  · rw [decNumber_toDigits, BitVec.ofNat_toNat, BitVec.setWidth_eq]
  · rw [if_neg (percentEncode_ne_nil hpath), hslash]

/-- A pool with bytes that must be encoded in every part. -/
theorem parse_encoded_pool :
    (URI.parse (fun _ => 0) (['h', 't', 't', 'p'] ++ "://".toList ++ percentEncode true [0x40] ++
      ":".toList ++ percentEncode true [0x2f] ++ "@".toList ++ percentEncode true [0x5b] ++
      ":".toList ++ Nat.toDigits 10 (BitVec.toNat (80 : BitVec 16)) ++ "/".toList ++
      percentEncode true [0x25])).host = chars [0x5b] :=
  (parse_encoded (fun _ => 0) true ['h', 't', 't', 'p'] [0x40] [0x2f] [0x5b] [0x25] 80
    (List.all_eq_true.mp rfl) (List.cons_ne_nil _ _)).2.2.2.2.1

end Energiminer.Protocol
