import MiracleAuction.Base.Decimal
import MiracleAuction.Base.Run
import MiracleAuction.Messaging.Outbox

/-!
# `event-envelope.ts`: incoming events

What the consumers accept of a Kafka message, and the ids that they derive by hashing.
-/
namespace MiracleAuction.Messaging

/-! ## Values of JavaScript -/

/-- `value[name]`, of a value that is not null; an array has no such property. -/
def Json.property (name : String) : Json → Option Json
  | .object fields => fields.lookup name
  | _ => none

/-- White space of JavaScript, line terminators included. -/
def isWhiteSpace (c : Char) : Bool :=
  c.toNat ∈ [0x9, 0xA, 0xB, 0xC, 0xD, 0x20, 0xA0, 0x1680, 0x2028, 0x2029, 0x202F, 0x205F, 0x3000,
    0xFEFF] || 0x2000 ≤ c.toNat && c.toNat ≤ 0x200A

def trim (cs : List Char) : List Char :=
  ((cs.dropWhile isWhiteSpace).reverse.dropWhile isWhiteSpace).reverse

/-- A digit of base 16. -/
def digitValue (c : Char) : Option Nat :=
  if c.isDigit then some (c.toNat - '0'.toNat)
  else if 'a' ≤ c ∧ c ≤ 'f' then some (c.toNat - 'a'.toNat + 10)
  else if 'A' ≤ c ∧ c ≤ 'F' then some (c.toNat - 'A'.toNat + 10)
  else none

/-- One or more digits of a base. -/
def digitsValue (base : Nat) : List Char → Option Nat
  | [] => none
  | cs => cs.foldlM (fun n c => ((digitValue c).filter (· < base)).map (base * n + ·)) 0

/-- `BigInt(text)`; only a decimal text may have a sign. -/
def bigInt (text : String) : Except String Int :=
  let value : Option Int :=
    match trim text.toList with
    | [] => some 0
    | '0' :: 'x' :: ds | '0' :: 'X' :: ds => (digitsValue 16 ds).map Int.ofNat
    | '0' :: 'o' :: ds | '0' :: 'O' :: ds => (digitsValue 8 ds).map Int.ofNat
    | '0' :: 'b' :: ds | '0' :: 'B' :: ds => (digitsValue 2 ds).map Int.ofNat
    | '-' :: ds => (digitsValue 10 ds).map fun n => -Int.ofNat n
    | '+' :: ds | ds => (digitsValue 10 ds).map Int.ofNat
  match value with
  | some n => .ok n
  | none => .error ("Cannot convert " ++ text ++ " to a BigInt")

example : bigInt " 12 " = .ok 12 := by decide

theorem trim_of_no_space {cs : List Char} (h : ∀ c ∈ cs, isWhiteSpace c = false) :
    trim cs = cs := by
  have hnone : ∀ cs : List Char, (∀ c ∈ cs, isWhiteSpace c = false) →
      cs.dropWhile isWhiteSpace = cs := by
    intro cs h
    cases cs with
    | nil => rfl
    | cons c cs => simp [h c List.mem_cons_self]
  unfold trim
  rw [hnone cs h, hnone cs.reverse fun c hc => h c (List.mem_reverse.mp hc), List.reverse_reverse]

theorem isWhiteSpace_of_isDigit {c : Char} (h : c.isDigit = true) : isWhiteSpace c = false := by
  simp only [Char.isDigit, Bool.and_eq_true, decide_eq_true_eq] at h
  have hlow : 48 ≤ c.toNat := h.1
  have hhigh : c.toNat ≤ 57 := h.2
  simp only [isWhiteSpace, Bool.or_eq_false_iff, decide_eq_false_iff_not, List.mem_cons,
    List.not_mem_nil, Bool.and_eq_false_iff, not_or, not_le, not_false_eq_true, and_true]
  omega

theorem digitValue_of_isDigit {c : Char} (h : c.isDigit = true) :
    (digitValue c).filter (· < 10) = some (c.toNat - '0'.toNat) := by
  unfold digitValue
  rw [if_pos h, Option.filter_some, if_pos]
  simp only [Char.isDigit, Bool.and_eq_true, decide_eq_true_eq] at h
  have hhigh : c.toNat ≤ 57 := h.2
  have hzero : '0'.toNat = 48 := rfl
  exact decide_eq_true (by omega)

/-- The digits of a number denote it. -/
theorem digitsValue_digits (n : Nat) : digitsValue 10 (Decimal.digits n) = some n := by
  have hfold : ∀ (cs : List Char), Decimal.Numeric cs → ∀ init : Nat,
      cs.foldlM (fun n c => ((digitValue c).filter (· < 10)).map (10 * n + ·)) init =
        some (Nat.ofDigitChars 10 cs init) := by
    intro cs
    induction cs with
    | nil => exact fun _ _ => by simp
    | cons c cs ih =>
      intro hnumeric init
      obtain ⟨hdigit, hrest⟩ := Decimal.numeric_cons.mp hnumeric
      rw [List.foldlM_cons, digitValue_of_isDigit hdigit, Nat.ofDigitChars_cons, ← ih hrest]
      rfl
  have hvalue := hfold (Decimal.digits n) (Decimal.numeric_digits n) 0
  unfold digitsValue
  split
  · rename_i hnil
    exact absurd hnil (Decimal.digits_ne_nil n)
  · rw [hvalue]
    exact congrArg some (Decimal.value_digits n)

/-- A number is read back from its text. -/
theorem bigInt_toString (n : Int) : bigInt (toString n) = .ok n := by
  cases n with
  | ofNat m =>
    have htext : (toString (Int.ofNat m)).toList = Decimal.digits m := Nat.toList_repr
    have hdigits := Decimal.numeric_digits m
    have hvalue := digitsValue_digits m
    unfold bigInt
    rw [htext, trim_of_no_space fun c hc => isWhiteSpace_of_isDigit (hdigits c hc)]
    revert hdigits hvalue
    generalize Decimal.digits m = cs
    intro hdigits hvalue
    -- The other cases have a letter or a sign among the digits.
    split
    · exact absurd hvalue (by simp [digitsValue])
    · exact absurd (hdigits 'x' (by simp)) (by decide)
    · exact absurd (hdigits 'X' (by simp)) (by decide)
    · exact absurd (hdigits 'o' (by simp)) (by decide)
    · exact absurd (hdigits 'O' (by simp)) (by decide)
    · exact absurd (hdigits 'b' (by simp)) (by decide)
    · exact absurd (hdigits 'B' (by simp)) (by decide)
    · exact absurd (hdigits '-' (by simp)) (by decide)
    · exact absurd (hdigits '+' (by simp)) (by decide)
    · rw [hvalue]
      rfl
  | negSucc m =>
    have htext : (toString (Int.negSucc m)).toList = '-' :: Decimal.digits (m + 1) := by
      change ("-" ++ Nat.repr (m + 1)).toList = _
      rw [String.toList_append, Nat.toList_repr]
      rfl
    have hdigits := Decimal.numeric_digits (m + 1)
    unfold bigInt
    rw [htext, trim_of_no_space]
    · simp only [digitsValue_digits]
      rfl
    · intro c hc
      obtain rfl | hc := List.mem_cons.mp hc
      · decide
      · exact isWhiteSpace_of_isDigit (hdigits c hc)

/-- The digits of a number, with leading zeros up to a width. -/
def padded (width n : Nat) : String :=
  String.ofList (List.replicate (width - (toString n).length) '0') ++ toString n

/-- Year, month and day of a day since 1970, counted in eras of 400 years that start in March. -/
def civilDate (day : Int) : Int × Nat × Nat :=
  let era := (day + 719468) / 146097
  let dayOfEra := ((day + 719468) % 146097).toNat
  let yearOfEra := (dayOfEra - dayOfEra / 1460 + dayOfEra / 36524 - dayOfEra / 146096) / 365
  let dayOfYear := dayOfEra - (365 * yearOfEra + yearOfEra / 4 - yearOfEra / 100)
  let month := (5 * dayOfYear + 2) / 153
  (yearOfEra + era * 400 + if month < 10 then 0 else 1,
    if month < 10 then month + 3 else month - 9, dayOfYear - (153 * month + 2) / 5 + 1)

/-- `toISOString`. -/
def toISOString (date : DateMs) : String :=
  let (year, month, day) := civilDate (date.val / 86400000)
  let ms := (date.val % 86400000).toNat
  let yearText :=
    if 0 ≤ year ∧ year ≤ 9999 then padded 4 year.toNat
    else (if year < 0 then "-" else "+") ++ padded 6 year.natAbs
  yearText ++ "-" ++ padded 2 month ++ "-" ++ padded 2 day ++ "T" ++
    padded 2 (ms / 3600000) ++ ":" ++ padded 2 (ms / 60000 % 60) ++ ":" ++
    padded 2 (ms / 1000 % 60) ++ "." ++ padded 3 (ms % 1000) ++ "Z"

example : toISOString ⟨951782400000, by decide⟩ = "2000-02-29T00:00:00.000Z" := by decide

/-! ## `parseEventEnvelope` -/

structure IncomingEvent where
  eventId : String
  eventType : String
  eventVersion : Int
  aggregateId : String
  occurredAt : String
  correlationId : String
  causationId : Option String := none
  payload : Json

/-- A field that has to be a text with content. -/
def textField (event : Json) (field : String) : Except String String :=
  match event.property field with
  | some (.string text) =>
    if text = "" then .error ("Invalid event field: " ++ field) else .ok text
  | _ => .error ("Invalid event field: " ++ field)

def versionField (event : Json) : Except String Int :=
  match event.property "eventVersion" with
  | some (.number n) => if n.isInt ∧ 1 ≤ n then .ok n.num else .error "Invalid eventVersion"
  | _ => .error "Invalid eventVersion"

def payloadField (event : Json) : Except String Json :=
  match event.property "payload" with
  | some payload => if payload.isObject then .ok payload else .error "Invalid payload"
  | none => .error "Invalid payload"

def causationField (event : Json) : Option String :=
  match event.property "causationId" with
  | some (.string text) => some text
  | _ => none

/-- The checks of the fields, in their order. -/
def readEnvelope (parsed : Json) : Except String IncomingEvent := do
  let eventId ← textField parsed "eventId"
  let eventType ← textField parsed "eventType"
  let aggregateId ← textField parsed "aggregateId"
  let occurredAt ← textField parsed "occurredAt"
  let correlationId ← textField parsed "correlationId"
  let eventVersion ← versionField parsed
  let payload ← payloadField parsed
  return { eventId, eventType, eventVersion, aggregateId, occurredAt, correlationId, payload,
           causationId := causationField parsed }

/-- `parseEventEnvelope`, of what `JSON.parse` returns. -/
def parseEventEnvelope (parsed : Json) : Except String IncomingEvent :=
  match parsed with
  | .object _ | .array _ => readEnvelope parsed
  | _ => .error "Event must be an object"

/-- An event with a text in each field that has to be one, and an object as its payload. -/
structure IncomingEvent.WellFormed (event : IncomingEvent) : Prop where
  eventId : event.eventId ≠ ""
  eventType : event.eventType ≠ ""
  aggregateId : event.aggregateId ≠ ""
  occurredAt : event.occurredAt ≠ ""
  correlationId : event.correlationId ≠ ""
  eventVersion : 1 ≤ event.eventVersion
  payload : event.payload.isObject = true

section
variable {parsed : Json} {event : IncomingEvent}

theorem textField_ok {field text : String} (h : textField parsed field = .ok text) :
    text ≠ "" := by
  unfold textField at h
  split at h
  · split at h
    · cases h
    · cases h
      assumption
  · cases h

theorem versionField_ok {n : Int} (h : versionField parsed = .ok n) : 1 ≤ n := by
  unfold versionField at h
  split at h
  · rename_i q _
    split at h
    · rename_i hq
      cases h
      exact Rat.num_pos.mpr (lt_of_lt_of_le one_pos hq.2)
    · cases h
  · cases h

theorem payloadField_ok {payload : Json} (h : payloadField parsed = .ok payload) :
    payload.isObject = true := by
  unfold payloadField at h
  split at h
  · split at h
    · cases h
      assumption
    · cases h
  · cases h

/-- What is accepted is well formed. -/
theorem parseEventEnvelope_ok (h : parseEventEnvelope parsed = .ok event) : event.WellFormed := by
  have hfields : readEnvelope parsed = .ok event := by
    unfold parseEventEnvelope at h
    split at h
    · exact h
    · exact h
    · cases h
  unfold readEnvelope at hfields
  obtain ⟨eventId, hid, hfields⟩ := Except.bind_eq_ok hfields
  obtain ⟨eventType, htype, hfields⟩ := Except.bind_eq_ok hfields
  obtain ⟨aggregateId, haggregate, hfields⟩ := Except.bind_eq_ok hfields
  obtain ⟨occurredAt, hoccurred, hfields⟩ := Except.bind_eq_ok hfields
  obtain ⟨correlationId, hcorrelation, hfields⟩ := Except.bind_eq_ok hfields
  obtain ⟨eventVersion, hversion, hfields⟩ := Except.bind_eq_ok hfields
  obtain ⟨payload, hpayload, hfields⟩ := Except.bind_eq_ok hfields
  cases hfields
  exact ⟨textField_ok hid, textField_ok htype, textField_ok haggregate, textField_ok hoccurred,
    textField_ok hcorrelation, versionField_ok hversion, payloadField_ok hpayload⟩

end

/-! ## Hashed ids -/

/-- The text of a hash from one position up to another one. -/
def cut (hash : String) (start stop : Nat) : String :=
  String.ofList ((hash.toList.take stop).drop start)

/-- The id that is cut out of a hexadecimal hash. -/
def hashedId (hash : String) : String :=
  cut hash 0 8 ++ "-" ++ cut hash 8 12 ++ "-4" ++ cut hash 13 16 ++ "-a" ++ cut hash 17 20 ++ "-" ++
    cut hash 20 32

def syntheticEventId (sha256 : String → String) (topic : String) (partition offset : Nat) :
    String :=
  hashedId (sha256 (topic ++ ":" ++ toString partition ++ ":" ++ toString offset))

def recoveryEventId (sha256 : String → String) (productId : Int) : String :=
  hashedId (sha256 ("auction-recovery:" ++ toString productId))

end MiracleAuction.Messaging
