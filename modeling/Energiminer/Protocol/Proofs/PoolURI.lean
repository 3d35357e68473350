import Energiminer.Misc.Scan
import Energiminer.Protocol.UriText

/-!
# What the URI parser accepts

The text that the parser accepts is put together from parts (`UriText.Accepted`), and the parser
reads the parts of such a text again. The parts are those of the documented form but for what the
parser does not check: empty schemes and hosts, what stands before and behind the digits of the
port, and escapes.
-/

namespace Energiminer.Protocol
open Misc

/-! ## Parts of a text -/

theorem stops_optText {p : Char → Bool} (mark : Char) (hmark : p mark = false)
    (part : Option (List Char)) {rest : List Char} (hrest : Stops p rest) :
    Stops p (optText mark part ++ rest) := by
  cases part with
  | none => exact hrest
  | some part => simpa [optText] using hmark

theorem stops_optText_last {p : Char → Bool} (mark : Char) (hmark : p mark = false)
    (part : Option (List Char)) : Stops p (optText mark part) := by
  have h := stops_optText mark hmark part stops_nil
  rwa [List.append_nil] at h

theorem stops_tailText {p : Char → Bool} (hslash : p '/' = false) (tail : Option UriTail) :
    Stops p (UriText.tailText tail) := by
  cases tail with
  | none => exact stops_nil
  | some tail => simpa [UriText.tailText, UriTail.text] using hslash

theorem userpassFlag_append {x : List Char} (h : ∀ c ∈ x, c ≠ '@' ∧ c ≠ '/') (rest : List Char) :
    userpassFlag (x ++ rest) = userpassFlag rest := by
  induction x with
  | nil => rfl
  | cons c x ih =>
    obtain ⟨hat, hslash⟩ := h c List.mem_cons_self
    rw [List.cons_append, userpassFlag, if_neg hat, if_neg hslash,
      ih fun c hc => h c (List.mem_cons_of_mem _ hc)]

/-- The flag is set by an `@` that no `/` precedes. -/
theorem exists_of_userpassFlag {s : List Char} (h : userpassFlag s = true) :
    ∃ x rest, s = x ++ '@' :: rest ∧ ∀ c ∈ x, c ≠ '@' ∧ c ≠ '/' := by
  induction s with
  | nil => cases h
  | cons c s ih =>
    rw [userpassFlag] at h
    split at h
    next hat => exact ⟨[], s, by rw [hat]; rfl, fun c hc => absurd hc List.not_mem_nil⟩
    next hat =>
      split at h
      next => cases h
      next hslash =>
        obtain ⟨x, rest, rfl, hx⟩ := ih h
        refine ⟨c :: x, rest, rfl, fun d hd => ?_⟩
        rcases List.mem_cons.mp hd with rfl | hd
        · exact ⟨hat, hslash⟩
        · exact hx d hd

theorem hostSpan_of_ne {s : List Char} (h : s.head? ≠ some '[') :
    hostSpan s = s.span fun c => c ≠ ':' && c ≠ '/' := by
  rw [hostSpan]
  rintro _ rfl
  exact h rfl

theorem hostSpan_append (s : List Char) : (hostSpan s).1 ++ (hostSpan s).2 = s := by
  by_cases h : s.head? = some '['
  · obtain ⟨s, rfl⟩ := List.head?_eq_some_iff.mp h
    have hspec := (span_spec (fun c : Char => decide (c ≠ ']')) s).1
    rw [hostSpan]
    dsimp only
    rw [List.cons_append, List.cons_append, List.append_assoc, List.take_append_drop, hspec]
  · rw [hostSpan_of_ne h]
    exact (span_spec _ _).1

/-! ## The cut of a text -/

theorem ne_of_noDelimiter {c : Char} (h : noDelimiter c = true) : c ≠ ':' ∧ c ≠ '@' ∧ c ≠ '/' := by
  simpa [noDelimiter, and_assoc] using h

theorem ne_of_isSchemeChar {c : Char} (h : isSchemeChar c = true) : c ≠ ':' := by
  rintro rfl
  exact absurd h (by decide)

/-! ### Where the parts end -/

theorem span_query {query : List Char} (h : ∀ c ∈ query, c ≠ '#') (fragment : Option (List Char)) :
    (query ++ optText '#' fragment).span (fun c => decide (c ≠ '#')) =
      (query, optText '#' fragment) :=
  span_append (fun c hc => by simpa using h c hc) (stops_optText_last '#' (by decide) fragment)

theorem span_path {tail : UriTail} (h : tail.Delimited) :
    (tail.path ++ (optText '?' tail.query ++ optText '#' tail.fragment)).span
        (fun c => c ≠ '#' && c ≠ '?') =
      (tail.path, optText '?' tail.query ++ optText '#' tail.fragment) :=
  span_append (fun c hc => by simpa using h.path c hc)
    (stops_optText '?' (by decide) tail.query (stops_optText_last '#' (by decide) tail.fragment))

theorem span_port {port : List Char} (h : ∀ c ∈ port, c ≠ '/') (tail : Option UriTail) :
    (port ++ UriText.tailText tail).span (fun c => decide (c ≠ '/')) =
      (port, UriText.tailText tail) :=
  span_append (fun c hc => by simpa using h c hc) (stops_tailText (by decide) tail)

theorem span_scheme {t : UriText} (h : ∀ c ∈ t.scheme, isSchemeChar c = true) :
    t.text.span (fun c => decide (c ≠ ':')) = (t.scheme, ':' :: '/' :: '/' :: t.authority) :=
  span_append (fun c hc => by simpa using ne_of_isSchemeChar (h c hc))
    (by rw [stops_cons]; decide)

/-! ### The parts -/

theorem cutFragment_text (fragment : Option (List Char)) :
    cutFragment (optText '#' fragment) = fragment := by
  cases fragment with
  | none | some fragment => rfl

theorem cutQuery_text {query : Option (List Char)} (h : ∀ q ∈ query, ∀ c ∈ q, c ≠ '#')
    (fragment : Option (List Char)) :
    cutQuery (optText '?' query ++ optText '#' fragment) = (query, optText '#' fragment) := by
  cases query with
  | none =>
    cases fragment with
    | none | some fragment => rfl
  | some query => rw [optText, List.cons_append, cutQuery, span_query (h query rfl)]

theorem cutTail_text {tail : Option UriTail} (h : ∀ t ∈ tail, t.Delimited) :
    cutTail (UriText.tailText tail) = tail := by
  cases tail with
  | none => rfl
  | some tail =>
    obtain ⟨path, query, fragment⟩ := tail
    have htail := h _ rfl
    rw [UriText.tailText, UriTail.text, List.cons_append, cutTail, span_path htail]
    dsimp only
    rw [cutQuery_text htail.query fragment, cutFragment_text]

theorem cutPort_text {port : Option (List Char)} (h : ∀ p ∈ port, ∀ c ∈ p, c ≠ '/')
    (tail : Option UriTail) :
    cutPort (optText ':' port ++ UriText.tailText tail) = (port, UriText.tailText tail) := by
  cases port with
  | none =>
    cases tail with
    | none | some tail => rfl
  | some port => rw [optText, List.cons_append, cutPort, span_port (h port rfl)]

section
variable {user : List Char} {password : Option (List Char)}

theorem userinfoText_append (user : List Char) (password : Option (List Char)) (rest : List Char) :
    UriText.userinfoText (some (user, password)) ++ rest =
      user ++ (optText ':' password ++ '@' :: rest) := by
  simp [UriText.userinfoText]

theorem userpassFlag_userinfo (huser : ∀ c ∈ user, noDelimiter c = true)
    (hpassword : ∀ x ∈ password, ∀ c ∈ x, c ≠ '@' ∧ c ≠ '/') (rest : List Char) :
    userpassFlag (user ++ (optText ':' password ++ '@' :: rest)) = true := by
  rw [userpassFlag_append fun c hc => (ne_of_noDelimiter (huser c hc)).2]
  cases password with
  | none => rfl
  | some password =>
    rw [optText, List.cons_append, userpassFlag, if_neg (by decide), if_neg (by decide),
      userpassFlag_append (hpassword password rfl)]
    rfl

theorem span_user (huser : ∀ c ∈ user, noDelimiter c = true) (password : Option (List Char))
    (rest : List Char) :
    (user ++ (optText ':' password ++ '@' :: rest)).span (fun c => c ≠ ':' && c ≠ '@') =
      (user, optText ':' password ++ '@' :: rest) := by
  refine span_append (fun c hc => ?_) (stops_optText ':' (by decide) password ?_)
  · obtain ⟨hcolon, hat, -⟩ := ne_of_noDelimiter (huser c hc)
    simp [hcolon, hat]
  · rw [stops_cons]
    decide

theorem span_password {password : List Char} (h : ∀ c ∈ password, c ≠ '@' ∧ c ≠ '/')
    (rest : List Char) :
    (password ++ '@' :: rest).span (fun c => decide (c ≠ '@')) = (password, '@' :: rest) := by
  refine span_append (fun c hc => ?_) ?_
  · simpa using (h c hc).1
  · rw [stops_cons]
    decide

theorem cutUserinfo_text (huser : ∀ c ∈ user, noDelimiter c = true)
    (hpassword : ∀ x ∈ password, ∀ c ∈ x, c ≠ '@' ∧ c ≠ '/') (rest : List Char) :
    cutUserinfo (UriText.userinfoText (some (user, password)) ++ rest) =
      (some (user, password), rest) := by
  rw [userinfoText_append, cutUserinfo, if_pos (userpassFlag_userinfo huser hpassword rest),
    span_user huser]
  cases password with
  | none => rfl
  | some password =>
    dsimp only
    rw [optText, List.cons_append, cutPassword, span_password (hpassword password rfl)]
    rfl

end

theorem cut_text {t : UriText} (h : t.Scanned) : cut t.text = t := by
  obtain ⟨scheme, userinfo, host, port, tail⟩ := t
  have huserinfo : cutUserinfo (UriText.authority ⟨scheme, userinfo, host, port, tail⟩) =
      (userinfo, host ++ UriText.afterHost ⟨scheme, userinfo, host, port, tail⟩) := by
    cases userinfo with
    | none => rw [cutUserinfo, if_neg (by rw [Bool.not_eq_true]; exact h.noUserinfo rfl)]; rfl
    | some info => exact cutUserinfo_text (h.user _ rfl) (h.password _ rfl) _
  have hdrop : ∀ rest : List Char, (':' :: '/' :: '/' :: rest).drop 3 = rest := fun _ => rfl
  rw [cut, span_scheme h.scheme]
  dsimp only
  rw [hdrop, huserinfo]
  dsimp only
  rw [h.host]
  dsimp only
  rw [UriText.afterHost, cutPort_text h.port tail, cutTail_text h.tail]

/-! ## Reading the parts -/

section
variable (junk : List Char → BitVec 32) (u : URI)

/-- A part after `urlDecode`. -/
def decodeText (x : List Char) : List Char := urlDecode (junk x) x

/-- The URI with what follows the port. -/
def URI.withTail : Option UriTail → URI
  | none => { u with valid := true }
  | some tail =>
    { u with
      path := if tail.path = [] then u.path else decodeText junk ('/' :: tail.path)
      query := tail.query.elim u.query (decodeText junk)
      fragment := tail.fragment.elim u.fragment (decodeText junk)
      valid := true }

/-- The URI with what follows the host. -/
def URI.withPort (tail : Option UriTail) : Option (List Char) → URI
  | none => u.withTail junk tail
  | some text =>
    if (extractPort text).2 then { u with port := (extractPort text).1 }
    else URI.withTail junk { u with port := (extractPort text).1 } tail

/-- The URI with the parts of a text. -/
def UriText.read (uri : List Char) (t : UriText) : URI :=
  URI.withPort junk
    { uri
      scheme := t.scheme.map Char.toLower
      username := t.userinfo.elim [] fun info => decodeText junk info.1
      password := (t.userinfo.bind Prod.snd).elim [] (decodeText junk)
      host := decodeText junk t.host } t.tail t.port

theorem readFragment_text (fragment : Option (List Char)) :
    u.readFragment junk (optText '#' fragment) =
      { u with fragment := fragment.elim u.fragment (decodeText junk), valid := true } := by
  cases fragment with
  | none | some fragment => rfl

theorem readQuery_text {query : Option (List Char)} (h : ∀ q ∈ query, ∀ c ∈ q, c ≠ '#')
    (fragment : Option (List Char)) :
    u.readQuery junk (optText '?' query ++ optText '#' fragment) =
      { u with
        query := query.elim u.query (decodeText junk)
        fragment := fragment.elim u.fragment (decodeText junk)
        valid := true } := by
  cases query with
  | none =>
    cases fragment with
    | none | some fragment => rfl
  | some query =>
    rw [optText, List.cons_append, URI.readQuery, span_query (h query rfl)]
    dsimp only
    rw [readFragment_text]
    rfl

theorem readPath_text {tail : Option UriTail} (h : ∀ t ∈ tail, t.Delimited) :
    u.readPath junk (UriText.tailText tail) = u.withTail junk tail := by
  cases tail with
  | none => rfl
  | some tail =>
    obtain ⟨path, query, fragment⟩ := tail
    have htail := h _ rfl
    rw [UriText.tailText, UriTail.text, List.cons_append, URI.readPath, span_path htail]
    dsimp only
    rw [readQuery_text junk _ htail.query, URI.withTail]
    split <;> rfl

theorem readPort_text {port : Option (List Char)} {tail : Option UriTail}
    (hport : ∀ p ∈ port, ∀ c ∈ p, c ≠ '/') (htail : ∀ t ∈ tail, t.Delimited) :
    u.readPort junk (optText ':' port ++ UriText.tailText tail) = u.withPort junk tail port := by
  cases port with
  | none =>
    rw [URI.withPort, ← readPath_text junk u htail]
    cases tail with
    | none | some tail => rfl
  | some port =>
    rw [optText, List.cons_append, URI.readPort, span_port (hport port rfl), URI.withPort]
    dsimp only
    rw [readPath_text junk _ htail]

theorem readUser_userinfo {user : List Char} {password : Option (List Char)}
    (huser : ∀ c ∈ user, noDelimiter c = true)
    (hpassword : ∀ x ∈ password, ∀ c ∈ x, c ≠ '@' ∧ c ≠ '/') (rest : List Char) :
    u.readUser junk (UriText.userinfoText (some (user, password)) ++ rest) =
      URI.readHost junk
        { u with
          username := decodeText junk user
          password := password.elim u.password (decodeText junk) } rest := by
  rw [userinfoText_append, URI.readUser, if_pos (userpassFlag_userinfo huser hpassword rest),
    span_user huser]
  cases password with
  | none => rfl
  | some password =>
    rw [optText, List.cons_append]
    dsimp only
    rw [URI.readPassword, span_password (hpassword password rfl)]
    rfl

theorem exists_upper {c : Char} (h : 'A'.val ≤ c.val ∧ c.val ≤ 'Z'.val) :
    ∃ n < 26, c = Char.ofNat (65 + n) := by
  have hlow : 65 ≤ c.toNat := UInt32.le_iff_toNat_le.mp h.1
  have hhigh : c.toNat ≤ 90 := UInt32.le_iff_toNat_le.mp h.2
  refine ⟨c.toNat - 65, by omega, ?_⟩
  rw [Nat.add_sub_cancel' hlow, Char.ofNat_toNat]

theorem isSchemeChar_toLower (c : Char) : isSchemeChar c.toLower = isSchemeChar c := by
  by_cases h : 'A'.val ≤ c.val ∧ c.val ≤ 'Z'.val
  · have hupper : ∀ n < 26, isSchemeChar (Char.ofNat (65 + n)).toLower =
        isSchemeChar (Char.ofNat (65 + n)) := by decide
    obtain ⟨n, hn, rfl⟩ := exists_upper h
    exact hupper n hn
  · have hsame : c.toLower = c := dif_neg h
    rw [hsame]

theorem cStr_eq {s : List Char} (h : '\x00' ∉ s) : cStr s = s := by
  rw [cStr, List.takeWhile_eq_self_iff]
  intro c hc
  simp only [ne_eq, decide_eq_true_eq]
  rintro rfl
  exact h hc

theorem readHost_text {host rest : List Char} (h : hostSpan (host ++ rest) = (host, rest)) :
    u.readHost junk (host ++ rest) =
      URI.readPort junk { u with host := decodeText junk host } rest := by
  rw [URI.readHost, h]
  rfl

theorem parse_text {s : List Char} {t : UriText} (h : t.Scanned) (htext : t.text = cStr s) :
    URI.parse junk s = t.read junk s := by
  have hall : (t.scheme.map Char.toLower).all isSchemeChar = true := by
    rw [List.all_map, List.all_eq_true]
    intro c hc
    rw [Function.comp_apply, isSchemeChar_toLower]
    exact h.scheme c hc
  rw [URI.parse, ← htext, span_scheme h.scheme]
  dsimp only
  rw [if_pos hall, URI.skipSlashes, UriText.read]
  cases huserinfo : t.userinfo with
  | none =>
    have hauthority : t.authority = t.host ++ t.afterHost := by
      rw [UriText.authority, huserinfo]
      rfl
    rw [hauthority, URI.readUser, h.noUserinfo huserinfo, if_neg Bool.false_ne_true,
      readHost_text junk _ h.host, UriText.afterHost, readPort_text junk _ h.port h.tail]
    rfl
  | some info =>
    have hauthority : t.authority = UriText.userinfoText (some (info.1, info.2)) ++
        (t.host ++ t.afterHost) := by
      rw [UriText.authority, huserinfo]
      rfl
    rw [hauthority, readUser_userinfo junk _ (h.user info huserinfo) (h.password info huserinfo),
      readHost_text junk _ h.host, UriText.afterHost, readPort_text junk _ h.port h.tail]
    rfl

end

/-! ## The parts of an accepted text -/

theorem exists_fragment {s : List Char} (h : Stops (fun c => decide (c ≠ '#')) s) :
    ∃ fragment, optText '#' fragment = s := by
  cases s with
  | nil => exact ⟨none, rfl⟩
  | cons c s =>
    have hc : c = '#' := by simpa using h
    exact ⟨some s, by rw [hc]; rfl⟩

theorem exists_query {s : List Char} (h : Stops (fun c => c ≠ '#' && c ≠ '?') s) :
    ∃ query fragment, (∀ q ∈ query, ∀ c ∈ q, c ≠ '#') ∧
      optText '?' query ++ optText '#' fragment = s := by
  cases s with
  | nil => exact ⟨none, none, fun q hq => absurd hq (Option.not_mem_none q), rfl⟩
  | cons c s =>
    have hc : c = '?' ∨ c = '#' := by
      by_contra hne
      rw [not_or] at hne
      simp [hne.1, hne.2] at h
    rcases hc with rfl | rfl
    · obtain ⟨happend, hquery, hrest⟩ := span_spec (fun c : Char => decide (c ≠ '#')) s
      obtain ⟨fragment, hfragment⟩ := exists_fragment hrest
      refine ⟨some (s.span fun c => decide (c ≠ '#')).1, fragment, ?_, ?_⟩
      · intro q hq c hc
        cases hq
        simpa using hquery c hc
      · rw [hfragment, optText, List.cons_append, happend]
    · exact ⟨none, some s, fun q hq => absurd hq (Option.not_mem_none q), rfl⟩

section
variable {junk : List Char → BitVec 32} {u : URI} {s : List Char}

theorem exists_tail (hu : u.valid = false) (h : (u.readPath junk s).valid = true) :
    ∃ tail, (∀ t ∈ tail, t.Delimited) ∧ UriText.tailText tail = s := by
  unfold URI.readPath at h
  split at h
  next => exact ⟨none, fun t ht => absurd ht (Option.not_mem_none t), rfl⟩
  next s =>
    obtain ⟨happend, hpath, hrest⟩ := span_spec (fun c : Char => c ≠ '#' && c ≠ '?') s
    obtain ⟨query, fragment, hquery, htext⟩ := exists_query hrest
    refine ⟨some ⟨(s.span fun c => c ≠ '#' && c ≠ '?').1, query, fragment⟩, ?_, ?_⟩
    · intro t ht
      cases ht
      exact ⟨fun c hc => by simpa using hpath c hc, hquery⟩
    · rw [UriText.tailText, UriTail.text, htext, List.cons_append, happend]
  next =>
    rw [hu] at h
    cases h

theorem exists_port (hu : u.valid = false) (h : (u.readPort junk s).valid = true) :
    ∃ port tail, (∀ p ∈ port, ∀ c ∈ p, c ≠ '/') ∧ (∀ t ∈ tail, t.Delimited) ∧
      optText ':' port ++ UriText.tailText tail = s := by
  unfold URI.readPort at h
  split at h
  next s =>
    obtain ⟨happend, hport, -⟩ := span_spec (fun c : Char => decide (c ≠ '/')) s
    dsimp only at h
    split at h
    next =>
      rw [hu] at h
      cases h
    next =>
      obtain ⟨tail, hdelimited, htail⟩ := exists_tail (by exact hu) h
      refine ⟨some (s.span fun c => decide (c ≠ '/')).1, tail, ?_, hdelimited, ?_⟩
      · intro p hp c hc
        cases hp
        simpa using hport c hc
      · rw [htail, optText, List.cons_append, happend]
  next =>
    obtain ⟨tail, hdelimited, htail⟩ := exists_tail hu h
    exact ⟨none, tail, fun p hp => absurd hp (Option.not_mem_none p), hdelimited, htail⟩

theorem exists_host (hu : u.valid = false) (h : (u.readHost junk s).valid = true) :
    ∃ host port tail, (∀ p ∈ port, ∀ c ∈ p, c ≠ '/') ∧ (∀ t ∈ tail, t.Delimited) ∧
      hostSpan s = (host, optText ':' port ++ UriText.tailText tail) ∧
      host ++ (optText ':' port ++ UriText.tailText tail) = s := by
  have hport : (URI.readPort junk { u with host := decodeText junk (hostSpan s).1 }
      (hostSpan s).2).valid = true := h
  obtain ⟨port, tail, hport, htail, htext⟩ := exists_port (by exact hu) hport
  refine ⟨(hostSpan s).1, port, tail, hport, htail, ?_, ?_⟩
  · rw [htext]
  · rw [htext, hostSpan_append]

theorem exists_userinfo (hflag : userpassFlag s = true) :
    ∃ user password rest, (∀ c ∈ user, noDelimiter c = true) ∧
      (∀ x ∈ password, ∀ c ∈ x, c ≠ '@' ∧ c ≠ '/') ∧
      s = UriText.userinfoText (some (user, password)) ++ rest := by
  obtain ⟨x, rest, rfl, hx⟩ := exists_of_userpassFlag hflag
  obtain ⟨happend, huser, hstops⟩ := span_spec (fun c : Char => decide (c ≠ ':')) x
  generalize (x.span fun c => decide (c ≠ ':')).1 = user at happend huser
  generalize (x.span fun c => decide (c ≠ ':')).2 = after at happend hstops
  subst happend
  have hdelimiter : ∀ c ∈ user, noDelimiter c = true := by
    intro c hc
    have hcolon : c ≠ ':' := by simpa using huser c hc
    obtain ⟨hat, hslash⟩ := hx c (List.mem_append_left _ hc)
    simp [noDelimiter, hcolon, hat, hslash]
  cases after with
  | nil =>
    refine ⟨user, none, rest, hdelimiter, fun x hx => absurd hx (Option.not_mem_none x), ?_⟩
    rw [userinfoText_append, List.append_nil]
    rfl
  | cons c password =>
    have hc : c = ':' := by simpa using hstops
    refine ⟨user, some password, rest, hdelimiter, ?_, ?_⟩
    · intro x hx' d hd
      cases hx'
      exact hx d (List.mem_append_right _ (List.mem_cons_of_mem _ hd))
    · rw [userinfoText_append, hc, List.append_assoc]
      rfl

/-- What follows the slashes of an accepted text. -/
theorem exists_authority (scheme : List Char) (hu : u.valid = false)
    (h : (u.readUser junk s).valid = true) (hscheme : ∀ c ∈ scheme, isSchemeChar c = true) :
    ∃ t : UriText, t.Scanned ∧ t.scheme = scheme ∧ t.authority = s := by
  cases hflag : userpassFlag s with
  | false =>
    rw [URI.readUser, hflag, if_neg Bool.false_ne_true] at h
    obtain ⟨host, port, tail, hport, htail, hspan, htext⟩ := exists_host hu h
    refine ⟨⟨scheme, none, host, port, tail⟩, ⟨hscheme, ?_, ?_, ?_, ?_, hport, htail⟩, rfl, htext⟩
    · exact fun info hinfo => absurd hinfo (Option.not_mem_none info)
    · exact fun info hinfo => absurd hinfo (Option.not_mem_none info)
    · intro _
      rw [UriText.afterHost, htext]
      exact hflag
    · rw [UriText.afterHost, htext]
      exact hspan
  | true =>
    obtain ⟨user, password, rest, huser, hpassword, rfl⟩ := exists_userinfo hflag
    rw [readUser_userinfo junk u huser hpassword] at h
    obtain ⟨host, port, tail, hport, htail, hspan, htext⟩ := exists_host (by exact hu) h
    refine ⟨⟨scheme, some (user, password), host, port, tail⟩,
      ⟨hscheme, ?_, ?_, fun hnone => ?_, ?_, hport, htail⟩, rfl, ?_⟩
    · intro info hinfo
      cases hinfo
      exact huser
    · intro info hinfo
      cases hinfo
      exact hpassword
    · cases hnone
    · rw [UriText.afterHost, htext]
      exact hspan
    · rw [UriText.authority, htext]

/-- An accepted text, up to its first NUL, is put together from parts. -/
theorem exists_text_of_valid (h : (URI.parse junk s).valid = true) :
    ∃ t : UriText, t.Scanned ∧ t.text = cStr s := by
  obtain ⟨happend, -, hstops⟩ := span_spec (fun c : Char => decide (c ≠ ':')) (cStr s)
  rw [URI.parse] at h
  generalize (cStr s).span (fun c => decide (c ≠ ':')) = p at h happend hstops
  obtain ⟨scheme, rest⟩ := p
  cases rest with
  | nil => cases h
  | cons c rest =>
    have hc : c = ':' := by simpa using hstops
    dsimp only at h
    split at h
    next hall =>
      have hscheme : ∀ c ∈ scheme, isSchemeChar c = true := by
        intro c hc
        rw [← isSchemeChar_toLower]
        exact List.all_eq_true.mp hall _ (List.mem_map_of_mem hc)
      unfold URI.skipSlashes at h
      split at h
      next s =>
        obtain ⟨t, hscanned, hts, hauthority⟩ := exists_authority scheme rfl h hscheme
        refine ⟨t, hscanned, ?_⟩
        rw [UriText.text, hts, hauthority, ← happend, hc]
      next => cases h
    next => cases h

end

/-! ## The documented form -/

namespace UriText
variable {t : UriText}

theorem isPort_iff {port : List Char} : isPort port = true ↔
    port ≠ [] ∧ (∀ c ∈ port, c.isDigit = true) ∧ decNumber port ≤ 65535 := by
  simp [isPort, and_assoc]

theorem isSpace_of_isDigit {c : Char} (h : c.isDigit = true) : isSpace c = false := by
  have hge : 48 ≤ c.toNat := by
    simp only [Char.isDigit, Bool.and_eq_true, decide_eq_true_eq] at h
    exact UInt32.le_iff_toNat_le.mp h.1
  have hne : c ≠ ' ' := by
    rintro rfl
    exact absurd hge (by decide)
  simp only [isSpace, hne, decide_false, Bool.false_or, Bool.and_eq_false_iff,
    decide_eq_false_iff_not]
  omega

theorem signOf_digits {port : List Char} (h : ∀ c ∈ port, c.isDigit = true) :
    signOf (port.dropWhile isSpace) = (false, port) := by
  cases port with
  | nil => rfl
  | cons c cs =>
    have hc := h c List.mem_cons_self
    rw [List.dropWhile_cons_of_neg (by simpa using isSpace_of_isDigit hc)]
    unfold signOf
    split
    next heq =>
      cases heq
      exact absurd hc (by decide)
    next heq =>
      cases heq
      exact absurd hc (by decide)
    next => rfl

theorem portDigits_eq {port : List Char} (h : ∀ c ∈ port, c.isDigit = true) :
    portDigits port = port := by
  rw [portDigits, signOf_digits h]
  exact List.takeWhile_eq_self_iff.mpr h

/-- The extraction succeeds if there are digits and their number is small enough. -/
theorem extractPort_ok_iff {text : List Char} : (extractPort text).2 = false ↔
    portDigits text ≠ [] ∧ decNumber (portDigits text) ≤ 65535 := by
  rw [extractPort, portDigits]
  dsimp only
  split
  next hnil => simp [hnil]
  next hne =>
    split
    next hlarge => simp [Nat.not_le.mpr hlarge]
    next hle => split <;> simp [hne, Nat.not_lt.mp hle]

/-- The parser reads digits as the number that they stand for. -/
theorem extractPort_of_isPort {port : List Char} (h : isPort port = true) :
    extractPort port = (BitVec.ofNat 16 (decNumber port), false) := by
  obtain ⟨hne, hdigits, hle⟩ := isPort_iff.mp h
  have htake := List.takeWhile_eq_self_iff.mpr hdigits
  rw [extractPort, signOf_digits hdigits]
  dsimp only
  rw [htake, if_neg hne, if_neg (Nat.not_lt.mpr hle), if_neg Bool.false_ne_true]

theorem valid_withTail (junk : List Char → BitVec 32) (u : URI) (tail : Option UriTail) :
    (u.withTail junk tail).valid = true ∧ (u.withTail junk tail).port = u.port := by
  cases tail with
  | none | some tail => exact ⟨rfl, rfl⟩

theorem valid_read (junk : List Char → BitVec 32) (s : List Char) :
    (t.read junk s).valid = true ↔ ∀ port ∈ t.port, (extractPort port).2 = false := by
  rw [read]
  cases t.port with
  | none => simp [URI.withPort, valid_withTail]
  | some port =>
    rw [URI.withPort]
    split
    next hfail => simp [hfail]
    next hok => simp [hok, valid_withTail]

theorem port_read (junk : List Char → BitVec 32) (s : List Char) {port : List Char}
    (hport : t.port = some port) (hok : (extractPort port).2 = false) :
    (t.read junk s).port = (extractPort port).1 := by
  rw [read, hport, URI.withPort, hok, if_neg Bool.false_ne_true, (valid_withTail _ _ _).2]

/-- An accepted port of digits is one of the documented form. -/
theorem Accepted.isPort (h : t.Accepted) (hsound : t.Sound) :
    ∀ port ∈ t.port, isPort port = true := by
  intro port hport
  have hdigits := hsound.port port hport
  have haccepted := h.port port hport
  rw [portDigits_eq hdigits] at haccepted
  exact isPort_iff.mpr ⟨haccepted.1, hdigits, haccepted.2⟩

theorem WellFormed.sound (h : t.WellFormed) : t.Sound where
  scheme := h.scheme
  host := h.host
  port port hport := (isPort_iff.mp (h.port port hport)).2.1
  decoded := h.decoded

end UriText

section
variable {junk : List Char → BitVec 32} {s : List Char}

/-- The parser accepts the texts that are put together from parts with a port that begins with a
number. -/
theorem valid_iff : (URI.parse junk s).valid = true ↔
    ∃ t : UriText, t.Accepted ∧ t.text = cStr s := by
  constructor
  · intro h
    obtain ⟨t, hscanned, htext⟩ := exists_text_of_valid h
    rw [parse_text junk hscanned htext, UriText.valid_read] at h
    exact ⟨t, ⟨hscanned, fun port hport => UriText.extractPort_ok_iff.mp (h port hport)⟩, htext⟩
  · rintro ⟨t, haccepted, htext⟩
    rw [parse_text junk haccepted.scanned htext, UriText.valid_read]
    exact fun port hport => UriText.extractPort_ok_iff.mpr (haccepted.port port hport)

theorem UriText.Scanned.unique {t t' : UriText} (h : t.Scanned) (h' : t'.Scanned)
    (htext : t.text = t'.text) : t = t' := by
  rw [← cut_text h, htext, cut_text h']

end

/-- If the text is accepted, it is a URI of the documented form with the port that was read. -/
def RejectsMalformed (junk : List Char → BitVec 32) (s : List Char) : Prop :=
  (URI.parse junk s).valid = true →
    ∃ t : UriText, t.WellFormed ∧ t.text = s ∧ t.HasPort (URI.parse junk s).port

/-- Malformed text is rejected if and only if the parts of what is accepted meet what the parser
does not check, and nothing follows a NUL. -/
theorem rejectsMalformed_iff (junk : List Char → BitVec 32) (s : List Char) :
    RejectsMalformed junk s ↔
      ∀ t : UriText, t.Accepted → t.text = cStr s → '\x00' ∉ s ∧ t.Sound := by
  constructor
  · intro h t haccepted htext
    obtain ⟨t', hwell, rfl, -⟩ := h (valid_iff.mpr ⟨t, haccepted, htext⟩)
    rw [cStr_eq hwell.noNul] at htext
    rw [haccepted.scanned.unique hwell.scanned htext]
    exact ⟨hwell.noNul, hwell.sound⟩
  · intro h hvalid
    obtain ⟨t, haccepted, htext⟩ := valid_iff.mp hvalid
    obtain ⟨hnul, hsound⟩ := h t haccepted htext
    have hport := haccepted.isPort hsound
    have hparse := parse_text junk haccepted.scanned htext
    rw [cStr_eq hnul] at htext
    subst htext
    refine ⟨t, ⟨haccepted.scanned, hsound.scheme, hsound.host, hport, hsound.decoded, hnul⟩, rfl,
      fun port hmem => ?_⟩
    have hread := UriText.extractPort_of_isPort (hport port hmem)
    have hle := (UriText.isPort_iff.mp (hport port hmem)).2.2
    rw [hparse, UriText.port_read junk _ hmem (by rw [hread]), hread, BitVec.toNat_ofNat,
      Nat.mod_eq_of_lt (by omega)]

/-- What follows the digits of the port is ignored. -/
theorem accepts_port_suffix : ¬ RejectsMalformed (fun _ => 0) "http://host:80x".toList := by
  intro h
  obtain ⟨t, hwell, htext, -⟩ := h (by decide)
  have hcut := cut_text hwell.scanned
  rw [htext] at hcut
  have hport := hwell.port "80x".toList (by rw [← hcut]; decide)
  exact absurd hport (by decide)

end Energiminer.Protocol
