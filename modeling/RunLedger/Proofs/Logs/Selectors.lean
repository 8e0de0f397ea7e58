import RunLedger.Logs.Request

/-!
Selectors that are read back. A reader goes over a selector from the left, one character after the
other: a value begins at a double quote, escapes are read as they come, and the first quote that is
not escaped ends the value. Main statement: the reader comes to the end of every selector and has
then read its labels and their values, so no value ends its quotes, adds a label or changes another
value.
-/

set_option autoImplicit false

namespace RunLedger

namespace Text.Hex

theorem ofNat_ne_nil (n : Nat) : ofNat n ≠ [] := by
  unfold ofNat
  split <;> simp

private theorem number?_concat (cs : List Char) (c : Char) :
    number? (cs ++ [c]) =
      (number? cs).bind fun high => (value? c).bind fun low => some (16 * high + low) := by
  rw [number?, List.foldl_append]
  rfl

private theorem number?_ofNat (n : Nat) : number? (ofNat n) = some n := by
  induction n using Nat.strongRecOn with
  | _ n ih =>
    unfold ofNat
    split
    · next hsmall => simp [number?, value?_digit hsmall]
    · next hlarge =>
      have hhigh := ih (n / 16) (by omega)
      have hlow := value?_digit (n := n % 16) (by omega)
      have hsum : 16 * (n / 16) + n % 16 = n := by omega
      simp [number?_concat, hhigh, hlow, hsum]

private theorem isSome_value?_of_mem_ofNat {n : Nat} {c : Char} (h : c ∈ ofNat n) :
    (value? c).isSome = true := by
  induction n using Nat.strongRecOn with
  | _ n ih =>
    unfold ofNat at h
    split at h
    · next hsmall =>
      rw [List.mem_singleton.1 h, value?_digit hsmall]
      rfl
    · rcases List.mem_append.1 h with h | h
      · exact ih (n / 16) (by omega) h
      · rw [List.mem_singleton.1 h, value?_digit (by omega)]
        rfl

end Text.Hex

namespace Logs

/-- Where a reader stands in a selector, and what it has read of the label there. -/
inductive Place where
  | front
  /-- In the name of a label. -/
  | name (read : List Char)
  /-- Behind the equals sign. -/
  | assigned (name : List Char)
  /-- Between the quotes of a value. -/
  | value (name read : List Char)
  /-- Behind a backslash. -/
  | escape (name read : List Char)
  /-- Behind the letter that a code point follows. -/
  | code (name read : List Char)
  /-- Between the braces of a code point. -/
  | digits (name read digits : List Char)
  /-- Behind the quotes of a value. -/
  | closed
  /-- Behind the comma between two labels. -/
  | comma
  | back
  deriving DecidableEq

/-- What a reader has read, and where it stands. -/
structure Reader where
  labels : List (String × String)
  place : Place

namespace Reader

/-- The character that is written as a letter behind a backslash. -/
def unescape? (c : Char) : Option Char :=
  if c = '"' then some '"'
  else if c = '\\' then some '\\'
  else if c = 't' then some '\t'
  else if c = 'r' then some '\r'
  else if c = 'n' then some '\n'
  else if c = '0' then some '\x00'
  else none

/-- The character of a code point in hexadecimal; there have to be digits, and not every number is
a code point. -/
def coded? (digits : List Char) : Option Char := do
  let n ← Text.Hex.number? digits
  if digits ≠ [] ∧ n.isValidChar then some (Char.ofNat n) else none

def step (r : Reader) (c : Char) : Option Reader :=
  match r.place with
  | .front => if c = '\x7b' then some ⟨r.labels, .name []⟩ else none
  | .name read =>
    if c = '=' then some ⟨r.labels, .assigned read⟩ else some ⟨r.labels, .name (read ++ [c])⟩
  | .assigned name => if c = '"' then some ⟨r.labels, .value name []⟩ else none
  | .value name read =>
    if c = '"' then some ⟨r.labels ++ [(String.ofList name, String.ofList read)], .closed⟩
    else if c = '\\' then some ⟨r.labels, .escape name read⟩
    else some ⟨r.labels, .value name (read ++ [c])⟩
  | .escape name read =>
    if c = 'u' then some ⟨r.labels, .code name read⟩
    else (unescape? c).map fun d => ⟨r.labels, .value name (read ++ [d])⟩
  | .code name read => if c = '\x7b' then some ⟨r.labels, .digits name read []⟩ else none
  | .digits name read digits =>
    if c = '\x7d' then (coded? digits).map fun d => ⟨r.labels, .value name (read ++ [d])⟩
    else some ⟨r.labels, .digits name read (digits ++ [c])⟩
  | .closed =>
    if c = ',' then some ⟨r.labels, .comma⟩
    else if c = '\x7d' then some ⟨r.labels, .back⟩
    else none
  | .comma => if c = ' ' then some ⟨r.labels, .name []⟩ else none
  | .back => none

/-- The labels and values of a selector that is read up to its end. -/
def read? (selector : String) : Option (List (String × String)) := do
  let r ← selector.toList.foldlM step ⟨[], .front⟩
  if r.place = .back then some r.labels else none

variable (labels : List (String × String)) (name read : List Char) {cs : List Char} {c : Char}

/-! ### Between the quotes -/

private theorem shortEscape?_mem {e : Char} (h : Text.Quoted.shortEscape? c = some e) :
    (c, e) ∈ [('"', '"'), ('\\', '\\'), ('\t', 't'), ('\r', 'r'), ('\n', 'n'), ('\x00', '0')] := by
  unfold Text.Quoted.shortEscape? at h
  repeat' split at h
  all_goals cases h <;> (subst_vars; decide)

private theorem unescape?_of_shortEscape? {e : Char} (h : Text.Quoted.shortEscape? c = some e) :
    unescape? e = some c ∧ e ≠ 'u' := by
  have hall : ∀ x ∈ [('"', '"'), ('\\', '\\'), ('\t', 't'), ('\r', 'r'), ('\n', 'n'),
      ('\x00', '0')], unescape? x.2 = some x.1 ∧ x.2 ≠ 'u' := by decide
  exact hall (c, e) (shortEscape?_mem h)

theorem shortEscape?_eq_none (h : Text.Quoted.shortEscape? c = none) : c ≠ '"' ∧ c ≠ '\\' := by
  constructor
  · rintro rfl
    simp [Text.Quoted.shortEscape?] at h
  · rintro rfl
    simp [Text.Quoted.shortEscape?] at h

private theorem coded?_ofNat (c : Char) : coded? (Text.Hex.ofNat c.toNat) = some c := by
  have hvalid : c.toNat.isValidChar := c.valid
  simp [coded?, Text.Hex.number?_ofNat, Text.Hex.ofNat_ne_nil, hvalid, Char.ofNat_toNat]

private theorem foldlM_digits (digits : List Char) (h : ∀ c ∈ cs, c ≠ '\x7d') :
    cs.foldlM step ⟨labels, .digits name read digits⟩ =
      some ⟨labels, .digits name read (digits ++ cs)⟩ := by
  induction cs generalizing digits with
  | nil => simp
  | cons c cs ih =>
    have hc : c ≠ '\x7d' := h c List.mem_cons_self
    have hstep : step ⟨labels, .digits name read digits⟩ c =
        some ⟨labels, .digits name read (digits ++ [c])⟩ := by simp [step, hc]
    rw [List.foldlM_cons, hstep]
    simpa using ih (digits ++ [c]) fun d hd => h d (List.mem_cons_of_mem c hd)

private theorem foldlM_escape (c : Char) :
    (Text.Quoted.escape c).foldlM step ⟨labels, .value name read⟩ =
      some ⟨labels, .value name (read ++ [c])⟩ := by
  unfold Text.Quoted.escape
  cases hshort : Text.Quoted.shortEscape? c with
  | some e =>
    obtain ⟨hletter, hu⟩ := unescape?_of_shortEscape? hshort
    simp [step, hletter, hu]
  | none =>
    obtain ⟨hquote, hbackslash⟩ := shortEscape?_eq_none hshort
    by_cases hcode : Text.Quoted.needsCode c = true
    · have hdigits : ∀ d ∈ Text.Hex.ofNat c.toNat, d ≠ '\x7d' := by
        rintro _ hd rfl
        exact absurd (Text.Hex.isSome_value?_of_mem_ofNat hd) (by decide)
      have hread := foldlM_digits labels name read [] hdigits
      simp [hcode, step, hread, coded?_ofNat]
    · simp [hcode, step, hquote, hbackslash]

private theorem foldlM_escapes (cs : List Char) :
    (cs.flatMap Text.Quoted.escape).foldlM step ⟨labels, .value name read⟩ =
      some ⟨labels, .value name (read ++ cs)⟩ := by
  induction cs generalizing read with
  | nil => simp
  | cons c cs ih =>
    rw [List.flatMap_cons, List.foldlM_append, foldlM_escape]
    simpa using ih (read ++ [c])

private theorem foldlM_quote (value : String) :
    (Text.Quoted.quote value).toList.foldlM step ⟨labels, .assigned name⟩ =
      some ⟨labels ++ [(String.ofList name, value)], .closed⟩ := by
  have hbetween := foldlM_escapes labels name [] value.toList
  simp [Text.Quoted.quote, Text.Quoted.encode, step, hbetween]

/-! ### Labels -/

private theorem foldlM_name (h : '=' ∉ cs) :
    cs.foldlM step ⟨labels, .name read⟩ = some ⟨labels, .name (read ++ cs)⟩ := by
  induction cs generalizing read with
  | nil => simp
  | cons c cs ih =>
    obtain ⟨hc, hcs⟩ := not_or.1 (mt List.mem_cons.2 h)
    have hstep : step ⟨labels, .name read⟩ c = some ⟨labels, .name (read ++ [c])⟩ := by
      simp [step, Ne.symm hc]
    rw [List.foldlM_cons, hstep]
    simpa using ih (read ++ [c]) hcs

private theorem foldlM_label {label : String} (value : String) (h : '=' ∉ label.toList) :
    (label ++ "=" ++ Text.Quoted.quote value).toList.foldlM step ⟨labels, .name []⟩ =
      some ⟨labels ++ [(label, value)], .closed⟩ := by
  have hname := foldlM_name labels [] h
  have hequals : "=".toList.foldlM step ⟨labels, .name label.toList⟩ =
      some ⟨labels, .assigned label.toList⟩ := rfl
  have hvalue := foldlM_quote labels label.toList value
  rw [String.ofList_toList] at hvalue
  rw [List.nil_append] at hname
  rw [String.toList_append, String.toList_append, List.foldlM_append, List.foldlM_append, hname]
  simp only [Option.bind_eq_bind, Option.bind_some, hequals, hvalue]

private theorem foldlM_labels {written : List (String × String)} (hsome : written ≠ [])
    (h : ∀ l ∈ written, '=' ∉ l.1.toList) :
    (String.intercalate ", " (written.map fun l =>
        l.1 ++ "=" ++ Text.Quoted.quote l.2)).toList.foldlM step ⟨labels, .name []⟩ =
      some ⟨labels ++ written, .closed⟩ := by
  induction written generalizing labels with
  | nil => exact absurd rfl hsome
  | cons l written ih =>
    have hfirst := foldlM_label labels l.2 (h l List.mem_cons_self)
    cases hrest : written with
    | nil => simpa using hfirst
    | cons next rest =>
      have hmore : written ≠ [] := by simp [hrest]
      have hlater := ih (labels ++ [l]) hmore fun m hm => h m (List.mem_cons_of_mem l hm)
      have hbetween : ", ".toList.foldlM step ⟨labels ++ [l], .closed⟩ =
          some ⟨labels ++ [l], .name []⟩ := rfl
      rw [← hrest, List.map_cons, String.intercalate_cons_of_ne_nil (by simpa using hmore),
        String.toList_append, String.toList_append, List.foldlM_append, List.foldlM_append, hfirst]
      simp only [Option.bind_eq_bind, Option.bind_some, hbetween, hlater, List.append_assoc,
        List.singleton_append]

/-- Whatever the values of a selector are, reading it gives its labels with these values. -/
private theorem read?_selector {written : List (String × String)} (hsome : written ≠ [])
    (h : ∀ l ∈ written, '=' ∉ l.1.toList) : read? (selector written) = some written := by
  have hlabels := foldlM_labels [] hsome h
  have hopen : "\x7b".toList.foldlM step ⟨[], .front⟩ = some ⟨[], .name []⟩ := rfl
  have hclose : "\x7d".toList.foldlM step ⟨written, .closed⟩ = some ⟨written, .back⟩ := rfl
  have hall : (selector written).toList.foldlM step ⟨[], .front⟩ = some ⟨written, .back⟩ := by
    simp only [selector, String.toList_append, List.foldlM_append, hopen, Option.bind_eq_bind,
      Option.bind_some]
    rw [hlabels]
    exact hclose
  simp [read?, hall]

end Reader

/-- A reader that goes over a selector from the left comes to its end and has then read the values
that the selector was made of, whatever they hold; so selectors tell their values apart. -/
theorem selectors_read_back :
    (∀ jobId, Reader.read? (jobSelector jobId) = some [("job_id", jobId)]) ∧
      (∀ allocId taskGroup, Reader.read? (allocationSelector allocId taskGroup) =
        some [("alloc_id", allocId), ("task_group", taskGroup)]) ∧
      (∀ a b, jobSelector a = jobSelector b ↔ a = b) ∧
      ∀ a b g h, allocationSelector a g = allocationSelector b h ↔ a = b ∧ g = h := by
  have hjob : ∀ jobId, Reader.read? (jobSelector jobId) = some [("job_id", jobId)] :=
    fun jobId => Reader.read?_selector (by simp) (by simp)
  have halloc : ∀ allocId taskGroup, Reader.read? (allocationSelector allocId taskGroup) =
      some [("alloc_id", allocId), ("task_group", taskGroup)] :=
    fun allocId taskGroup => Reader.read?_selector (by simp) (by simp)
  refine ⟨hjob, halloc, fun a b => ⟨fun hsame => ?_, fun hsame => hsame ▸ rfl⟩,
    fun a b g h => ⟨fun hsame => ?_, fun hsame => by rw [hsame.1, hsame.2]⟩⟩
  · have hread := hjob a
    rw [hsame, hjob b] at hread
    simpa using hread.symm
  · have hread := halloc a g
    rw [hsame, halloc b h] at hread
    simpa [eq_comm] using hread

example : allocationSelector "a" "we\"ird" =
    "\x7balloc_id=\"a\", task_group=\"we\\\"ird\"\x7d" := by
  decide +kernel

end Logs

end RunLedger
