import Mathlib.Tactic

set_option autoImplicit false

namespace Tonk.Gateway

variable {Address : Type}

/-- std::string::find. There is no offset for npos, and nothing is found from it on. -/
def find (s : List Char) (c : Char) (pos : Option Nat) : Option Nat :=
  pos.bind fun pos => ((s.drop pos).findIdx? (· == c)).map (pos + ·)

def substr (s : List Char) (pos count : Nat) : List Char := (s.drop pos).take count

def decimalValue (digits : List Char) : Nat :=
  digits.foldl (fun value digit => 10 * value + (digit.toNat - '0'.toNat)) 0

def isspace (c : Char) : Bool := c ∈ [' ', '\t', '\n', '\x0b', '\x0c', '\r']

/-- atoi of the characters in front of a NUL. It is undefined for a value that is no int: `overflow`
stands for what it returns then. -/
def atoi (overflow : Int → Int) (s : List Char) : Int :=
  let s := (s.takeWhile (· != '\x00')).dropWhile isspace
  let (negative, s) := match s with
    | '-' :: s => (true, s)
    | '+' :: s => (false, s)
    | s => (false, s)
  let magnitude : Int := decimalValue (s.takeWhile Char.isDigit)
  let value := if negative then -magnitude else magnitude
  if -2 ^ 31 ≤ value ∧ value < 2 ^ 31 then value else overflow value

structure Library (Address : Type) where
  makeAddress : List Char → Option Address
  overflow : Int → Int

structure ParsedURL (Address : Type) where
  fullURL : List Char
  xmlPath : List Char
  ip : List Char
  port : Nat
  ipAddr : Option Address
  tcpEndpoint : Option (Address × Nat)

structure Fields where
  ip : List Char
  port : Option (List Char)
  path : List Char
  deriving DecidableEq

def fields (url : List Char) : Fields :=
  let colon := find url ':' (some 0)
  let portStart := colon.map (· + 1)
  let ipEnd := colon.getD url.length
  -- without a port the search starts from npos
  match find url '/' portStart with
  | none => ⟨url.take ipEnd, portStart.map fun start => substr url start (url.length - start), []⟩
  | some slash =>
    ⟨url.take (if slash < ipEnd then slash else ipEnd),
      portStart.map fun start => substr url start (slash - start), url.drop (slash + 1)⟩

def parsePort (lib : Library Address) : Option (List Char) → Except String Int
  | none => .ok 80
  | some portStr =>
    let port := atoi lib.overflow portStr
    if port ≤ 0 then .error "Port did not parse" else .ok port

def ParsedURL.parse (lib : Library Address) (u : ParsedURL Address) (url : List Char) :
    ParsedURL Address × Except String Unit :=
  let u := { u with fullURL := url }
  let fields := fields url
  match parsePort lib fields.port with
  | .error message => (u, .error message)
  | .ok port =>
    let port := if port = 443 then 80 else port
    let u := { u with
      ip := fields.ip
      port := (port % 2 ^ 16).toNat
      xmlPath := fields.path
      ipAddr := lib.makeAddress fields.ip }
    match lib.makeAddress fields.ip with
    | none => (u, .error "retrieveDescription: Invalid IP string")
    | some address => ({ u with tcpEndpoint := some (address, u.port) }, .ok ())

structure IPv4 where
  bytes : Fin 4 → UInt8

def IPv4.text (host : IPv4) : List Char :=
  let byte (i : Fin 4) := Nat.toDigits 10 (host.bytes i).toNat
  byte 0 ++ '.' :: byte 1 ++ '.' :: byte 2 ++ '.' :: byte 3

structure Decimal where
  digits : List Char
  ne_nil : digits ≠ []
  isDigit : ∀ c ∈ digits, c.isDigit = true

def Decimal.value (d : Decimal) : Nat := decimalValue d.digits

structure URL where
  host : IPv4
  port : Option Decimal
  path : Option (List Char)

namespace URL

def portText (url : URL) : List Char := url.port.elim [] fun port => ':' :: port.digits

def pathText (url : URL) : List Char := url.path.elim [] fun path => '/' :: path

def text (url : URL) : List Char := url.host.text ++ url.portText ++ url.pathText

def Parses (lib : Library Address) (u : ParsedURL Address) (url : URL) (port : Nat) : Prop :=
  let (u, result) := u.parse lib url.text
  result = .ok () ∧ u.ip = url.host.text ∧ u.xmlPath = url.path.getD [] ∧ u.port = port

def Fails (lib : Library Address) (u : ParsedURL Address) (url : URL) : Prop :=
  ∃ message, (u.parse lib url.text).2 = .error message

def FollowsGrammar (lib : Library Address) (u : ParsedURL Address) (url : URL) : Prop :=
  match url.port with
  | none => url.Parses lib u 80
  | some port =>
    if 1 ≤ port.value ∧ port.value ≤ 65535 then
      url.Parses lib u (if port.value = 443 then 80 else port.value)
    else url.Fails lib u

end URL

/-- make_address takes every IPv4 address; up to a scope or a NUL it takes nothing but digits, dots
and colons. -/
structure Library.Numeric (lib : Library Address) : Prop where
  accepts : ∀ host : IPv4, ∃ address, lib.makeAddress host.text = some address
  numeric : ∀ s address, lib.makeAddress s = some address →
    ∀ c ∈ s.takeWhile fun c => c != '%' && c != '\x00',
      c.isDigit = true ∨ c ∈ "abcdefABCDEF".toList ∨ c = '.' ∨ c = ':'

section Text

theorem IPv4.mem_text (host : IPv4) {c : Char} (h : c ∈ host.text) : c.isDigit = true ∨ c = '.' := by
  simp only [IPv4.text, List.mem_append, List.mem_cons] at h
  have hbyte (i : Fin 4) (hc : c ∈ Nat.toDigits 10 (host.bytes i).toNat) : c.isDigit = true :=
    Nat.isDigit_of_mem_toDigits (by decide) (by decide) hc
  rcases h with ((h | h | h) | h | h) | h | h
  · exact .inl (hbyte _ h)
  · exact .inr h
  · exact .inl (hbyte _ h)
  · exact .inr h
  · exact .inl (hbyte _ h)
  · exact .inr h
  · exact .inl (hbyte _ h)

theorem ne_of_isDigit {c d : Char} (hc : c.isDigit = true) (hd : d.isDigit = false) : c ≠ d := by
  rintro rfl
  rw [hc] at hd
  cases hd

theorem IPv4.ne_of_mem {host : IPv4} {c d : Char} (h : c ∈ host.text) (hd : d.isDigit = false)
    (hdot : d ≠ '.') : c ≠ d := by
  rcases host.mem_text h with hc | rfl
  · exact ne_of_isDigit hc hd
  · exact hdot.symm

theorem findIdx?_none {s : List Char} {c : Char} (h : ∀ x ∈ s, x ≠ c) : s.findIdx? (· == c) = none := by
  rw [List.findIdx?_eq_none_iff]
  intro x hx
  simpa using h x hx

theorem find_separator {front : List Char} {c : Char} (h : ∀ x ∈ front, x ≠ c) (before rest : List Char) :
    find (before ++ front ++ c :: rest) c (some before.length) =
      some (before.length + front.length) := by
  have hdrop : (before ++ front ++ c :: rest).drop before.length = front ++ c :: rest := by
    rw [List.append_assoc, List.drop_left]
  have hfirst : (c :: rest).findIdx? (· == c) = some 0 := by simp [List.findIdx?_cons]
  rw [find, Option.bind_some, hdrop, List.findIdx?_append, findIdx?_none h, hfirst]
  simp

theorem find_none {front : List Char} {c : Char} (h : ∀ x ∈ front, x ≠ c) (before : List Char) :
    find (before ++ front) c (some before.length) = none := by
  rw [find, Option.bind_some, List.drop_left, findIdx?_none h]
  rfl

theorem takeWhile_self {s : List Char} {p : Char → Bool} (h : ∀ c ∈ s, p c = true) :
    s.takeWhile p = s := by
  have happend : (s ++ []).takeWhile p = s ++ [].takeWhile p := List.takeWhile_append_of_pos h
  simpa using happend

theorem atoi_digits (overflow : Int → Int) (d : Decimal) :
    atoi overflow d.digits = if d.value < 2 ^ 31 then (d.value : Int) else overflow d.value := by
  obtain ⟨first, rest, hdigits⟩ := List.exists_cons_of_ne_nil d.ne_nil
  have hfirst : first.isDigit = true := d.isDigit first (by simp [hdigits])
  have hall : d.digits.takeWhile (· != '\x00') = d.digits := by
    refine takeWhile_self fun c hc => ?_
    simpa using ne_of_isDigit (d.isDigit c hc) (d := '\x00') (by decide)
  have hspace : isspace first = false := by
    unfold isspace
    simp only [List.mem_cons, List.not_mem_nil, or_false, decide_eq_false_iff_not, not_or]
    exact ⟨ne_of_isDigit hfirst (by decide), ne_of_isDigit hfirst (by decide),
      ne_of_isDigit hfirst (by decide), ne_of_isDigit hfirst (by decide),
      ne_of_isDigit hfirst (by decide), ne_of_isDigit hfirst (by decide)⟩
  have hdrop : d.digits.dropWhile isspace = d.digits := by
    rw [hdigits, List.dropWhile_cons_of_neg (by simp [hspace])]
  have hsign : (match d.digits with
      | '-' :: s => (true, s)
      | '+' :: s => (false, s)
      | s => (false, s)) = (false, d.digits) := by
    rw [hdigits]
    split
    · next heq => exact absurd (List.cons.inj heq).1 (ne_of_isDigit hfirst (by decide))
    · next heq => exact absurd (List.cons.inj heq).1 (ne_of_isDigit hfirst (by decide))
    · rfl
  have htake : d.digits.takeWhile Char.isDigit = d.digits := takeWhile_self d.isDigit
  simp only [atoi, hall, hdrop, hsign, htake, Bool.false_eq_true, if_false]
  rw [← Decimal.value]
  by_cases hlt : d.value < 2 ^ 31
  · rw [if_pos hlt, if_pos (by omega)]
  · rw [if_neg hlt, if_neg (by omega)]

end Text

section Fields

variable {url : List Char}

theorem le_of_find {c : Char} {pos i : Nat} (h : find url c (some pos) = some i) : pos ≤ i := by
  simp only [find, Option.bind_some, Option.map_eq_some_iff] at h
  obtain ⟨j, -, rfl⟩ := h
  exact Nat.le_add_right pos j

theorem fields_of_no_colon (hcolon : find url ':' (some 0) = none) : fields url = ⟨url, none, []⟩ := by
  have hnpos : find url '/' none = none := rfl
  simp only [fields, hcolon, Option.map_none, hnpos, Option.getD_none, List.take_length]

theorem fields_of_colon {colon : Nat} (hcolon : find url ':' (some 0) = some colon) :
    fields url =
      match find url '/' (some (colon + 1)) with
      | none => ⟨url.take colon, some (substr url (colon + 1) (url.length - (colon + 1))), []⟩
      | some slash =>
        ⟨url.take colon, some (substr url (colon + 1) (slash - (colon + 1))), url.drop (slash + 1)⟩ := by
  simp only [fields, hcolon, Option.map_some, Option.getD_some]
  cases hslash : find url '/' (some (colon + 1)) with
  | none => rfl
  | some slash =>
    have hle := le_of_find hslash
    simp only
    rw [if_neg (by omega)]

variable (host : IPv4)

theorem fields_host : fields host.text = ⟨host.text, none, []⟩ := by
  have hnone := find_none (fun x hx => host.ne_of_mem hx (by decide) (by decide)) (c := ':') []
  exact fields_of_no_colon (by simpa using hnone)

theorem fields_port (port : Decimal) (path : Option (List Char)) :
    fields (host.text ++ (':' :: port.digits) ++ path.elim [] fun path => '/' :: path) =
      ⟨host.text, some port.digits, path.getD []⟩ := by
  have hhost : ∀ x ∈ host.text, x ≠ ':' := fun x hx => host.ne_of_mem hx (by decide) (by decide)
  have hport : ∀ x ∈ port.digits, x ≠ '/' := fun x hx => ne_of_isDigit (port.isDigit x hx) (by decide)
  have hlength : (host.text ++ [':']).length = host.text.length + 1 := by simp
  have hassoc (rest : List Char) :
      host.text ++ (':' :: port.digits) ++ rest = host.text ++ [':'] ++ port.digits ++ rest := by
    simp
  have hcolon (rest : List Char) : find (host.text ++ (':' :: port.digits) ++ rest) ':' (some 0) =
      some host.text.length := by
    simpa using find_separator hhost [] (port.digits ++ rest)
  rw [fields_of_colon (hcolon _)]
  have hsubstr (rest : List Char) : substr (host.text ++ [':'] ++ port.digits ++ rest)
      (host.text.length + 1) port.digits.length = port.digits := by
    rw [substr, List.append_assoc, ← hlength, List.drop_left, List.take_left]
  have hip (rest : List Char) :
      (host.text ++ [':'] ++ port.digits ++ rest).take host.text.length = host.text := by
    rw [List.append_assoc, List.append_assoc, List.take_left]
  cases path with
  | none =>
    have hslash := find_none hport (host.text ++ [':'])
    have hcount : (host.text ++ [':'] ++ port.digits ++ []).length - (host.text.length + 1) =
        port.digits.length := by
      simp only [List.length_append, List.length_singleton, List.length_nil]
      omega
    rw [hlength, ← List.append_nil (host.text ++ [':'] ++ port.digits)] at hslash
    simp only [Option.elim_none, Option.getD_none, hassoc, hslash, hcount, hsubstr, hip]
  | some path =>
    have hslash := find_separator hport (host.text ++ [':']) path
    have hpath : (host.text ++ [':'] ++ port.digits ++ '/' :: path).drop
        (host.text.length + 1 + port.digits.length + 1) = path := by
      have hfront : (host.text ++ [':'] ++ port.digits ++ ['/']).length =
          host.text.length + 1 + port.digits.length + 1 := by
        simp only [List.length_append, List.length_singleton]
      rw [← hfront, List.append_cons _ '/' path, List.drop_left]
    rw [hlength] at hslash
    simp only [Option.elim_some, Option.getD_some, hassoc, hslash, Nat.add_sub_cancel_left, hsubstr,
      hip, hpath]

theorem fields_path (path : List Char) :
    ∃ rest, (fields (host.text ++ '/' :: path)).ip = host.text ++ '/' :: rest := by
  cases hcolon : find (host.text ++ '/' :: path) ':' (some 0) with
  | none =>
    rw [fields_of_no_colon hcolon]
    exact ⟨path, rfl⟩
  | some colon =>
    have hip : (fields (host.text ++ '/' :: path)).ip = (host.text ++ '/' :: path).take colon := by
      rw [fields_of_colon hcolon]
      split <;> rfl
    have hbehind : host.text.length < colon := by
      have hnone : host.text.findIdx? (· == ':') = none :=
        findIdx?_none fun x hx => host.ne_of_mem hx (by decide) (by decide)
      simp only [find, Option.bind_some, List.drop_zero, List.findIdx?_append, hnone, Option.none_or,
        List.findIdx?_cons, Option.map_map, Option.map_eq_some_iff] at hcolon
      obtain ⟨j, hj, rfl⟩ := hcolon
      simp at hj
      obtain ⟨k, -, rfl⟩ := hj
      simp
    rw [hip, List.take_append, List.take_of_length_le (by omega)]
    obtain ⟨k, hk⟩ : ∃ k, colon - host.text.length = k + 1 := ⟨colon - host.text.length - 1, by omega⟩
    exact ⟨path.take k, by rw [hk, List.take_succ_cons]⟩

end Fields

section Parsing

variable {lib : Library Address}

theorem Library.Numeric.rejects (hlib : lib.Numeric) (host : IPv4) (rest : List Char) :
    lib.makeAddress (host.text ++ '/' :: rest) = none := by
  rw [Option.eq_none_iff_forall_ne_some]
  intro address haddress
  have hmem : '/' ∈ (host.text ++ '/' :: rest).takeWhile fun c => c != '%' && c != '\x00' := by
    rw [List.takeWhile_append_of_pos]
    · simp
    · intro c hc
      simp only [Bool.and_eq_true, bne_iff_ne]
      exact ⟨host.ne_of_mem hc (by decide) (by decide), host.ne_of_mem hc (by decide) (by decide)⟩
  exact absurd (hlib.numeric _ _ haddress _ hmem) (by decide)

variable (u : ParsedURL Address)

theorem parse_of_port_error {text : List Char} {message : String}
    (h : parsePort lib (fields text).port = .error message) :
    (u.parse lib text).2 = .error message := by
  simp only [ParsedURL.parse, h]

theorem parse_of_rejected {text : List Char} (h : lib.makeAddress (fields text).ip = none) :
    ∃ message, (u.parse lib text).2 = .error message := by
  cases hport : parsePort lib (fields text).port with
  | error message => exact ⟨message, parse_of_port_error u hport⟩
  | ok port =>
    refine ⟨"retrieveDescription: Invalid IP string", ?_⟩
    simp only [ParsedURL.parse, hport, h]

theorem parse_of_accepted {text : List Char} {port : Int} {address : Address}
    (hport : parsePort lib (fields text).port = .ok port)
    (h : lib.makeAddress (fields text).ip = some address) :
    (u.parse lib text).2 = .ok () ∧ (u.parse lib text).1.ip = (fields text).ip ∧
      (u.parse lib text).1.xmlPath = (fields text).path ∧
      (u.parse lib text).1.port = ((if port = 443 then 80 else port) % 2 ^ 16).toNat := by
  simp only [ParsedURL.parse, hport, h]
  exact ⟨trivial, trivial, trivial, trivial⟩

namespace URL

variable {url : URL}

theorem fails_of_path (hlib : lib.Numeric) (hport : url.port = none) {path : List Char}
    (hpath : url.path = some path) : url.Fails lib u := by
  have htext : url.text = url.host.text ++ '/' :: path := by
    simp [text, portText, pathText, hport, hpath]
  obtain ⟨rest, hip⟩ := fields_path url.host path
  refine parse_of_rejected u ?_
  rw [htext, hip]
  exact hlib.rejects url.host rest

theorem parses_host (hlib : lib.Numeric) (hport : url.port = none) (hpath : url.path = none) :
    url.Parses lib u 80 := by
  have htext : url.text = url.host.text := by simp [text, portText, pathText, hport, hpath]
  have hfields := fields_host url.host
  have hvalue : parsePort lib (fields url.host.text).port = .ok 80 := by
    rw [hfields]
    rfl
  obtain ⟨address, haddress⟩ := hlib.accepts url.host
  have hparse := parse_of_accepted u hvalue (by rw [hfields]; exact haddress)
  rw [hfields] at hparse
  rw [Parses, htext, hpath]
  exact hparse

theorem fields_text {port : Decimal} (hport : url.port = some port) :
    fields url.text = ⟨url.host.text, some port.digits, url.path.getD []⟩ := by
  rw [← fields_port, text, portText, pathText, hport]
  rfl

theorem parses_port (hlib : lib.Numeric) {port : Decimal} (hport : url.port = some port)
    (hpos : 0 < atoi lib.overflow port.digits) :
    let value := atoi lib.overflow port.digits
    url.Parses lib u ((if value = 443 then 80 else value) % 2 ^ 16).toNat := by
  have hfields := fields_text hport
  have hvalue : parsePort lib (fields url.text).port = .ok (atoi lib.overflow port.digits) := by
    rw [hfields, parsePort, if_neg (by omega)]
  obtain ⟨address, haddress⟩ := hlib.accepts url.host
  have hparse := parse_of_accepted u hvalue (by rw [hfields]; exact haddress)
  rw [hfields] at hparse
  exact hparse

theorem fails_port {port : Decimal} (hport : url.port = some port)
    (hpos : atoi lib.overflow port.digits ≤ 0) : url.Fails lib u := by
  have herror : parsePort lib (fields url.text).port = .error "Port did not parse" := by
    rw [fields_text hport, parsePort, if_pos hpos]
  exact ⟨_, parse_of_port_error u herror⟩

theorem not_parses_of_fails {port : Nat} (h : url.Fails lib u) : ¬url.Parses lib u port := by
  rintro ⟨hok, -⟩
  obtain ⟨message, herror⟩ := h
  have hboth := hok.symm.trans herror
  cases hboth

/-- A path is behind a port, and a port is at most 65535; atoi may also refuse one beyond an int. -/
def Supported (lib : Library Address) (url : URL) : Prop :=
  (url.port = none → url.path = none) ∧
    ∀ port, url.port = some port →
      port.value ≤ 65535 ∨ 2 ^ 31 ≤ port.value ∧ lib.overflow port.value ≤ 0

theorem followsGrammar_iff (hlib : lib.Numeric) (url : URL) :
    url.FollowsGrammar lib u ↔ url.Supported lib := by
  unfold FollowsGrammar Supported
  cases hport : url.port with
  | none =>
    simp only [true_implies, reduceCtorEq, false_implies, implies_true, and_true]
    cases hpath : url.path with
    | none => exact iff_of_true (parses_host u hlib hport hpath) rfl
    | some path =>
      exact iff_of_false (not_parses_of_fails u (fails_of_path u hlib hport hpath)) nofun
  | some port =>
    simp only [reduceCtorEq, false_implies, Option.some.injEq, forall_eq', true_and]
    have hatoi := atoi_digits lib.overflow port
    by_cases hrange : 1 ≤ port.value ∧ port.value ≤ 65535
    · rw [if_pos hrange]
      refine iff_of_true ?_ (.inl hrange.2)
      rw [if_pos (by omega)] at hatoi
      have hparses := parses_port u hlib hport (by omega)
      simp only [hatoi] at hparses
      have hvalue : ((if (port.value : Int) = 443 then 80 else (port.value : Int)) % 2 ^ 16).toNat =
          if port.value = 443 then 80 else port.value := by
        split_ifs <;> omega
      rwa [hvalue] at hparses
    · rw [if_neg hrange]
      by_cases hint : port.value < 2 ^ 31
      · rw [if_pos hint] at hatoi
        by_cases hzero : port.value = 0
        · exact iff_of_true (fails_port u hport (by omega)) (.inl (by omega))
        · have hparses := parses_port u hlib hport (by omega)
          exact iff_of_false (fun hfails => not_parses_of_fails u hfails hparses) (by omega)
      · rw [if_neg hint] at hatoi
        by_cases hrefused : lib.overflow port.value ≤ 0
        · exact iff_of_true (fails_port u hport (by omega)) (.inr ⟨by omega, hrefused⟩)
        · have hparses := parses_port u hlib hport (by omega)
          exact iff_of_false (fun hfails => not_parses_of_fails u hfails hparses) (by omega)

/-- IPv4 addresses only; an int of 32 bits is cut out of a long of 64. -/
def ipv4Library : Library (List Char) where
  makeAddress s := if s.all fun c => c.isDigit || c == '.' then some s else none
  overflow value := if 2 ^ 63 ≤ value then -1 else value.bmod (2 ^ 32)

theorem numeric_ipv4Library : ipv4Library.Numeric where
  accepts host := by
    refine ⟨host.text, if_pos ?_⟩
    rw [List.all_eq_true]
    intro c hc
    simpa using host.mem_text hc
  numeric s address h c hc := by
    have hmem : c ∈ s := (List.takeWhile_sublist _).subset hc
    simp only [ipv4Library, Option.ite_none_right_eq_some, List.all_eq_true] at h
    have hc := h.1 c hmem
    simp only [Bool.or_eq_true, beq_iff_eq] at hc
    rcases hc with hdigit | hdot
    · exact .inl hdigit
    · exact .inr (.inr (.inl hdot))

def router : IPv4 := ⟨fun i => [192, 168, 1, 1].getD i 0⟩

def unparsed : ParsedURL (List Char) := ⟨[], [], [], 0, none, none⟩

theorem followsGrammar_description :
    URL.FollowsGrammar ipv4Library unparsed
      ⟨router, some ⟨"5000".toList, by decide, List.all_eq_true.mp rfl⟩, some "desc.xml".toList⟩ := by
  refine (followsGrammar_iff unparsed numeric_ipv4Library _).2 ⟨nofun, ?_⟩
  rintro _ ⟨⟩
  exact .inl (by decide)

/-- 192.168.1.1/desc.xml is not parsed. -/
theorem not_followsGrammar_path : ¬∀ (Address : Type) (lib : Library Address), lib.Numeric →
    ∀ (u : ParsedURL Address) (url : URL), url.FollowsGrammar lib u := by
  intro h
  let url : URL := ⟨router, none, some "desc.xml".toList⟩
  have hfails : url.Fails ipv4Library unparsed := fails_of_path unparsed numeric_ipv4Library rfl rfl
  exact not_parses_of_fails unparsed hfails (h _ _ numeric_ipv4Library unparsed url)

end URL

end Parsing

end Tonk.Gateway
