import Bmb.Http.Client
import Bmb.PercentDecoding

namespace Bmb.Http

open Bmb.Base

/-! Clients that write any text as a parameter, and are understood. -/

/-! ## Percent coding -/

def hexDigit (digit : Nat) : UInt8 := UInt8.ofNat (if digit < 10 then 48 + digit else 55 + digit)

/-- A letter or a digit. -/
def isPlain (byte : UInt8) : Bool :=
  isDigit byte || (65 ≤ byte && byte ≤ 90) || (97 ≤ byte && byte ≤ 122)

def percentEncodeByte (byte : UInt8) : Bytes :=
  if isPlain byte then [byte] else [37, hexDigit (byte.toNat / 16), hexDigit (byte.toNat % 16)]

def percentEncode (message : Bytes) : Bytes := message.flatMap percentEncodeByte

/-- A byte that neither ends a value nor makes another parameter of it. -/
def isSafe (byte : UInt8) : Bool := !isDelimiter byte && byte != 61 && byte != 0

theorem hexDigit_spec : ∀ digit < 16, isHexadecimal (hexDigit digit) = true ∧
    hexValue (hexDigit digit) = digit ∧ isSafe (hexDigit digit) = true := by
  decide

theorem percentEncodeByte_encodes (byte : UInt8) : EncodesByte byte (percentEncodeByte byte) := by
  unfold percentEncodeByte
  split
  · rename_i plain
    refine .plain ?_ ?_
    · rintro rfl
      exact absurd plain (by decide)
    · rintro rfl
      exact absurd plain (by decide)
  · have bound := byte.toNat_lt
    obtain ⟨first, high, _⟩ := hexDigit_spec (byte.toNat / 16) (by omega)
    obtain ⟨second, low, _⟩ := hexDigit_spec (byte.toNat % 16) (by omega)
    have whole : UInt8.ofNat (16 * hexValue (hexDigit (byte.toNat / 16)) +
        hexValue (hexDigit (byte.toNat % 16))) = byte := by
      rw [high, low, Nat.div_add_mod, UInt8.ofNat_toNat]
    have escaped := EncodesByte.escape first second
    rwa [whole] at escaped

/-- Every text can be written as a parameter. -/
theorem percentEncode_encodes (message : Bytes) : Encodes message (percentEncode message) := by
  refine ⟨message.map percentEncodeByte, ?_, List.flatMap_def⟩
  induction message with
  | nil => exact .nil
  | cons byte rest ih => exact .cons (percentEncodeByte_encodes byte) ih

theorem percentEncode_ne_nil {message : Bytes} (nonempty : message ≠ []) : percentEncode message ≠ [] := by
  obtain ⟨byte, rest, rfl⟩ := List.exists_cons_of_ne_nil nonempty
  rw [percentEncode, List.flatMap_cons, percentEncodeByte]
  split <;> simp

theorem isSafe_of_isPlain {byte : UInt8} (plain : isPlain byte = true) : isSafe byte = true := by
  have large : 48 ≤ byte := by
    simp only [isPlain, isDigit, Bool.or_eq_true, Bool.and_eq_true, decide_eq_true_eq] at plain
    rcases plain with (digit | upper) | lower
    · exact digit.1
    · exact UInt8.le_trans (by decide) upper.1
    · exact UInt8.le_trans (by decide) lower.1
  have equals : byte ≠ 61 := by
    rintro rfl
    exact absurd plain (by decide)
  have away (other : UInt8) (small : other < 48) : byte ≠ other := by
    rintro rfl
    exact absurd large (UInt8.not_le.mpr small)
  have space : ¬byte ≤ 13 := fun small => absurd (UInt8.le_trans large small) (by decide)
  simp [isSafe, isDelimiter, isSpace, equals, away 38 (by decide), away 32 (by decide),
    away 0 (by decide), space]

theorem percentEncode_safe (message : Bytes) : ∀ byte ∈ percentEncode message, isSafe byte = true := by
  intro byte member
  obtain ⟨origin, _, inside⟩ := List.mem_flatMap.mp member
  unfold percentEncodeByte at inside
  split at inside
  · rename_i plain
    rw [List.mem_singleton.mp inside]
    exact isSafe_of_isPlain plain
  · have bound := origin.toNat_lt
    simp only [List.mem_cons, List.not_mem_nil, or_false] at inside
    rcases inside with rfl | rfl | rfl
    · decide
    · exact (hexDigit_spec _ (by omega)).2.2
    · exact (hexDigit_spec _ (by omega)).2.2

/-! ## Parameters in a text -/

/-- A text without `key=`. -/
def Free (key text : Bytes) : Prop := ∀ place, ¬OccursAt (keyWord key) text place

/-- What stands behind the first `key=` of a text. -/
def Presents (key text : Bytes) : Option Bytes → Prop
  | none => Free key text
  | some value => FirstValue key text value

section Presents

variable {key left right value : Bytes} {separator : UInt8} {found : Option Bytes}

theorem Free.of_plain (plain : 61 ∉ left) : Free key left := by
  intro place occurs
  obtain ⟨before, after, rfl, _⟩ := occurs
  exact plain (by simp [keyWord])

theorem Free.join (apart : separator ∉ keyWord key) (free : Free key left) (rest : Free key right) :
    Free key (left ++ separator :: right) := by
  intro place occurs
  rcases occurs.split apart with within | ⟨other, inside, _⟩
  · exact free place within
  · exact rest other inside

theorem FirstValue.front (found : FirstValue key left value) (ends : isDelimiter separator = true) :
    FirstValue key (left ++ separator :: right) value := by
  obtain ⟨before, after, shown, ended, first⟩ := found.place
  refine ⟨⟨before, after ++ separator :: right, ?_, ?_, first.append _⟩, found.plain⟩
  · rw [shown]
    simp only [List.append_assoc]
  · cases after with
    | nil => simpa using ends
    | cons byte after => exact ended

theorem FirstValue.behind (apart : separator ∉ keyWord key) (free : Free key left)
    (found : FirstValue key right value) : FirstValue key (left ++ separator :: right) value := by
  obtain ⟨before, after, shown, ended, first⟩ := found.place
  refine ⟨⟨left ++ separator :: before, after, ?_, ended, ?_⟩, found.plain⟩
  · rw [shown]
    simp only [List.append_assoc, List.cons_append]
  · have place : (left ++ separator :: before).length = left.length + 1 + before.length := by
      rw [List.length_append, List.length_cons]
      omega
    rw [place]
    exact first.behind apart free

theorem Presents.behind (apart : separator ∉ keyWord key) (free : Free key left)
    (presents : Presents key right found) : Presents key (left ++ separator :: right) found := by
  cases found with
  | none => exact free.join apart presents
  | some value => exact FirstValue.behind apart free presents

theorem Presents.front (apart : separator ∉ keyWord key) (ends : isDelimiter separator = true)
    (presents : Presents key left found) (free : Free key right) :
    Presents key (left ++ separator :: right) found := by
  cases found with
  | none => exact Free.join apart presents free
  | some value => exact FirstValue.front presents ends

theorem Presents.shows (presents : Presents key left found) :
    Shows key left (found.filter (· ≠ [])) := by
  cases found with
  | none => exact .inl presents
  | some value =>
      by_cases empty : value = []
      · rw [empty] at presents ⊢
        exact .inr presents
      · rwa [Option.filter_some_pos (by simpa using empty)]

/-- A line with its end in front of a text. -/
theorem Presents.line (apart : 13 ∉ keyWord key ∧ 10 ∉ keyWord key) (free : Free key left)
    (presents : Presents key right found) : Presents key (left ++ crlf ++ right) found := by
  have empty : Free key [] := .of_plain List.not_mem_nil
  have split : left ++ crlf ++ right = left ++ 13 :: ([] ++ 10 :: right) := by simp [crlf]
  rw [split]
  exact (presents.behind apart.2 empty).behind apart.1 free

theorem Presents.lines {headers : List Bytes} (apart : 13 ∉ keyWord key ∧ 10 ∉ keyWord key)
    (free : ∀ header ∈ headers, Free key header) (presents : Presents key right found) :
    Presents key (headers.flatMap (· ++ crlf) ++ right) found := by
  induction headers with
  | nil => exact presents
  | cons header headers ih =>
      have others := ih fun other member => free other (List.mem_cons_of_mem _ member)
      rw [List.flatMap_cons, List.append_assoc]
      exact Presents.line apart (free header List.mem_cons_self) others

end Presents

/-! ## Query strings -/

section Query

variable {key : Bytes} {pair : RequestPair} {parameters : List RequestPair}

/-- A parameter that is not taken for one with another key. -/
structure Distinguished (key : Bytes) (pair : RequestPair) : Prop where
  name : 61 ∉ pair.key
  value : 61 ∉ pair.value
  plain : ∀ byte ∈ pair.value, isDelimiter byte = false
  unlike : key <:+ pair.key → pair.key = key

theorem presents_same (distinguished : Distinguished key pair) (same : pair.key = key) :
    FirstValue key (keyWord pair.key ++ pair.value) pair.value := by
  have first : FirstAt (keyWord key) (keyWord key ++ pair.value) 0 :=
    ⟨⟨[], pair.value, rfl, rfl⟩, fun other _ => Nat.zero_le other⟩
  rw [same]
  exact ⟨⟨[], [], by simp, by simp, first⟩, distinguished.plain⟩

/-- The key that is looked for would end with the parameter's own `=`. -/
theorem presents_other (distinguished : Distinguished key pair) (other : pair.key ≠ key) :
    Free key (keyWord pair.key ++ pair.value) := by
  intro place occurs
  obtain ⟨before, after, shown, _⟩ := occurs
  have split : pair.key ++ 61 :: pair.value = (before ++ key) ++ 61 :: after := by
    simpa [keyWord] using shown
  have front := (List.append_cons_inj_of_notMem distinguished.name distinguished.value).mp split
  exact other (distinguished.unlike ⟨before, front.1.symm⟩)

theorem queryString_cons (more : parameters ≠ []) : queryString (pair :: parameters) =
    (keyWord pair.key ++ pair.value) ++ 38 :: queryString parameters := by
  rw [queryString]
  exact more

theorem queryString_presents (apart : 38 ∉ keyWord key)
    (distinguished : ∀ pair ∈ parameters, Distinguished key pair) :
    Presents key (queryString parameters)
      ((parameters.find? fun pair => pair.key = key).map RequestPair.value) := by
  induction parameters using queryString.induct with
  | case1 => exact Free.of_plain List.not_mem_nil
  | case2 pair =>
      have own := distinguished pair List.mem_cons_self
      by_cases same : pair.key = key
      · rw [List.find?_cons_of_pos (by simpa using same)]
        exact presents_same own same
      · rw [List.find?_cons_of_neg (by simpa using same)]
        exact presents_other own same
  | case3 pair rest more ih =>
      have own := distinguished pair List.mem_cons_self
      have others := ih fun other member => distinguished other (List.mem_cons_of_mem _ member)
      rw [queryString_cons more]
      by_cases same : pair.key = key
      · rw [List.find?_cons_of_pos (by simpa using same)]
        exact FirstValue.front (presents_same own same) (by decide)
      · rw [List.find?_cons_of_neg (by simpa using same)]
        exact Presents.behind apart (presents_other own same) others

end Query

/-! ## Clients that are understood -/

namespace ClientRequest

/-- A client whose other lines contain no `key=`, and whose parameters are not taken for one
another. -/
structure Legible (client : ClientRequest) : Prop where
  values : ∀ pair ∈ client.parameters, 61 ∉ pair.value
  unlike : ∀ key ∈ client.method.keys, ∀ pair ∈ client.parameters, key <:+ pair.key → pair.key = key
  path : ∀ key ∈ client.method.keys, Free key client.path
  version : ∀ key ∈ client.method.keys, Free key client.version
  headers : ∀ key ∈ client.method.keys, ∀ header ∈ client.headers, Free key header

theorem separators_apart (method : Method) {key : Bytes} (member : key ∈ method.keys) :
    ∀ separator ∈ [10, 13, 32, 38, 63], separator ∉ keyWord key := by
  revert key
  cases method <;> decide +kernel

variable {client : ClientRequest}

/-- What stands behind the request target. -/
theorem Legible.behind (legible : client.Legible) {key body : Bytes} {found : Option Bytes}
    (member : key ∈ client.method.keys) (presents : Presents key body found) :
    Presents key (client.version ++ crlf ++ (client.headers.flatMap (· ++ crlf) ++
      ([] ++ crlf ++ body))) found := by
  have apart := separators_apart client.method member
  have ends : 13 ∉ keyWord key ∧ 10 ∉ keyWord key :=
    ⟨apart 13 (by decide), apart 10 (by decide)⟩
  have blank := presents.line ends (.of_plain List.not_mem_nil : Free key [])
  exact (blank.lines ends (legible.headers key member)).line ends (legible.version key member)

theorem Legible.undisturbed (legible : client.Legible) : client.Undisturbed := by
  intro key member
  have apart := separators_apart client.method member
  have query : Presents key (queryString client.parameters)
      ((client.parameters.find? fun pair => pair.key = key).map RequestPair.value) := by
    refine queryString_presents (apart 38 (by decide)) fun pair inside => ?_
    exact ⟨fun equals => ((client.keys pair inside).2 61 equals).1 rfl, legible.values pair inside,
      client.values pair inside, legible.unlike key member pair inside⟩
  have blank : 32 ∉ keyWord key := apart 32 (by decide)
  have named : Free key client.method.name := by
    refine .of_plain ?_
    cases client.method <;> decide
  have free := legible.path key member
  refine Presents.shows ?_
  cases method : client.method with
  | get =>
      have rest := (legible.behind member (.of_plain List.not_mem_nil : Free key []) :
        Presents key _ none)
      have target := (query.behind (apart 63 (by decide)) free).front blank (by decide) rest
      have whole := target.behind blank named
      simpa [bytes, HttpRequest.bytes, HttpRequest.rest, Form.message, method] using whole
  | post =>
      have whole := ((legible.behind member query).behind blank free).behind blank named
      simpa [bytes, HttpRequest.bytes, HttpRequest.rest, Form.message, method] using whole

/-- What a client has given for a key that is looked for. -/
def visible (client : ClientRequest) (key : Bytes) : Option Bytes :=
  if client.method.keys.contains key then client.given key else none

theorem visible_ne_empty (client : ClientRequest) (key : Bytes) : client.visible key ≠ some [] := by
  rw [visible]
  split
  · exact client.given_ne_empty key
  · exact nofun

/-- Parsing finds what a legible client has given. -/
theorem Legible.get (legible : client.Legible) {key : Bytes}
    (known : key ∈ [text "type", text "queue", text "data"]) :
    (bodyOf client.method.name client.bytes).get key = client.visible key := by
  rw [visible]
  by_cases member : key ∈ client.method.keys
  · rw [if_pos (List.contains_iff_mem.mpr member)]
    exact client.recovered_iff.mpr legible.undisturbed key member
  · rw [if_neg (mt List.contains_iff_mem.mp member)]
    obtain ⟨_, _, data, _⟩ := bodyOf_get client.method.name client.bytes
    cases method : client.method with
    | get =>
        rw [method] at member data
        have only : key = text "data" := by
          simp only [Method.keys, List.mem_cons, List.not_mem_nil, or_false] at known member
          tauto
        rw [only, data]
        rfl
    | post =>
        rw [method] at member
        exact absurd known member

end ClientRequest

/-! ## Writing requests -/

section Writing

variable {method : Method} {parameters : List RequestPair}

/-- A form without headers. -/
def bareForm (method : Method) (parameters : List RequestPair) : Form :=
  ⟨method, text "/", text "HTTP/1.1", [], parameters⟩

/-- A parameter with a known key and a value that is nothing but a value. -/
def IsWritten (pair : RequestPair) : Prop :=
  pair.key ∈ [text "type", text "queue", text "data"] ∧ ∀ byte ∈ pair.value, isSafe byte = true

/-- What a client with such a form has given. -/
theorem visible_of_bareForm {client : ClientRequest} {key value : Bytes}
    (written : client.toForm = bareForm method parameters) (looked : key ∈ method.keys)
    (found : (parameters.find? fun pair => pair.key = key) = some ⟨key, value⟩) (filled : value ≠ []) :
    client.visible key = some value := by
  have given : (bareForm method parameters).given key = some value := by
    show ((parameters.find? fun pair => pair.key = key).map RequestPair.value).filter (· ≠ []) = _
    rw [found]
    exact Option.filter_some_pos (by simpa using filled)
  rw [ClientRequest.visible, written, given]
  exact if_pos (List.contains_iff_mem.mpr looked)

end Writing

end Bmb.Http
