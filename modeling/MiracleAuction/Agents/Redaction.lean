import MiracleAuction.Base.Regex
import MiracleAuction.Base.Utf8
import MiracleAuction.Messaging.Envelope

/-!
# `secretRedactor.ts` and `commandRunner.ts`

What the hook of a command sees of its output, chunk by chunk, and what its result holds.
-/
namespace MiracleAuction.Redaction

open Messaging (isWhiteSpace)

/-! ## `redactSecrets` -/

/-- A pattern that begins with a group; the other parts may be groups. -/
structure SecretPattern where
  group : Regex
  others : List (Regex × Bool)

def SecretPattern.parts (pattern : SecretPattern) : List Regex :=
  pattern.group :: pattern.others.map Prod.fst

/-- The texts of the groups. -/
def SecretPattern.groups (pattern : SecretPattern) : List (List Char) → List (List Char)
  | [] => []
  | first :: texts => first :: ((texts.zip pattern.others).filter (·.2.2)).map Prod.fst

/-- `"$1[REDACTED]$2"`; the number of a group that is not there stands for itself. -/
def replaceValue (groups : List (List Char)) : List Char :=
  groups[0]?.getD "$1".toList ++ "[REDACTED]".toList ++ groups[1]?.getD "$2".toList

/-- A text without regard to case. -/
def word (text : String) : Regex := .literal Char.toUpper text.toList

/-- `[A-Z0-9_]` without regard to case. -/
def isKeyChar (c : Char) : Bool := c.isAlphanum || c = '_'

/-- `[A-Za-z0-9._~+/=-]`. -/
def isTokenChar (c : Char) : Bool := c.isAlphanum || c ∈ ['.', '_', '~', '+', '/', '=', '-']

def assignment : SecretPattern where
  group := .seq (.many isKeyChar) (.seq
    (.alt (word "TOKEN") (.alt (word "SECRET") (.alt (word "PASSWORD") (.alt (word "API_KEY")
      (word "PRIVATE_KEY")))))
    (.seq (.many isKeyChar) (.char (· = '='))))
  others := [(.many1 fun c => !isWhiteSpace c, false)]

def bearer : SecretPattern where
  group := .seq (word "Bearer") (.many1 isWhiteSpace)
  others := [(.many1 isTokenChar, false)]

def postgres : SecretPattern where
  group := .seq (word "postgres") (.seq (.alt (word "ql") .empty) (.seq (word "://")
    (.seq (.many1 fun c => c ≠ ':' && !isWhiteSpace c) (.char (· = ':')))))
  others := [(.many1 fun c => c ≠ '@' && !isWhiteSpace c, false), (.char (· = '@'), true)]

/-- What is before a match that goes on belongs to the first group. -/
theorem replaceValue_keeps (pattern : SecretPattern) (left right : List Char) (n : Nat)
    (ns : List Nat) (h : Regex.continues pattern.parts left right (n :: ns) = true) :
    replaceValue (pattern.groups (Regex.texts (n :: ns) (left ++ right))) =
      left ++ replaceValue (pattern.groups (Regex.texts ((n - left.length) :: ns) right)) := by
  rw [Regex.continues, Bool.and_eq_true, Bool.and_eq_true, decide_eq_true_eq] at h
  obtain ⟨⟨hle, -⟩, -⟩ := h
  have hlength : (left ++ right).length = left.length + right.length := List.length_append
  rw [Regex.texts, Regex.texts, List.take_append, List.drop_append,
    List.take_of_length_le hle, List.drop_eq_nil_of_le hle, List.nil_append]
  simp only [SecretPattern.groups, replaceValue, List.getElem?_cons_zero, Option.getD_some,
    List.getElem?_cons_succ, List.append_assoc]

def SecretPattern.replacement (pattern : SecretPattern)
    (h : Regex.firstMatch pattern.parts [] = none) : Regex.Replacement where
  parts := pattern.parts
  template := fun texts => replaceValue (pattern.groups texts)
  nonempty := h
  keeps := fun left right n ns _ => replaceValue_keeps pattern left right n ns

def secretPatterns : List Regex.Replacement :=
  [assignment.replacement (by decide), bearer.replacement (by decide),
    postgres.replacement (by decide)]

def redactSecrets (value : List Char) : List Char := Regex.applyAll secretPatterns value

example : redactSecrets "MY_TOKEN=abc x".toList = "MY_TOKEN=[REDACTED]$2 x".toList := by
  decide +kernel

/-! ## `CommandRunner` -/

def appendCapped (current : List Char) (chunk : List UInt8) (maxBytes : Nat) : List Char :=
  let combined := Utf8.encode current ++ chunk
  if combined.length ≤ maxBytes then Utf8.decode combined
  else Utf8.decode (combined.take maxBytes)

/-- The text of a stream so far, and what `onOutput` was called with. -/
structure Output where
  text : List Char := []
  calls : List (List Char) := []

/-- The handler of a chunk. -/
def onData (maxOutputBytes : Nat) (s : Output) (chunk : List UInt8) : Output where
  text := appendCapped s.text chunk maxOutputBytes
  calls := s.calls ++ [redactSecrets (Utf8.decode chunk)]

def output (maxOutputBytes : Nat) (chunks : List (List UInt8)) : Output :=
  chunks.foldl (onData maxOutputBytes) {}

/-- The text in the result of the command. -/
def onClose (s : Output) : List Char := redactSecrets s.text

variable {maxOutputBytes : Nat} {chunks : List (List UInt8)}

theorem output_snoc (chunk : List UInt8) : output maxOutputBytes (chunks ++ [chunk]) =
    onData maxOutputBytes (output maxOutputBytes chunks) chunk :=
  List.foldl_concat _ _ _ _

theorem output_calls (maxOutputBytes : Nat) (chunks : List (List UInt8)) :
    (output maxOutputBytes chunks).calls = chunks.map fun chunk =>
      redactSecrets (Utf8.decode chunk) := by
  induction chunks using List.reverseRecOn with
  | nil => rfl
  | append_singleton chunks chunk ih =>
    rw [output_snoc, List.map_append, ← ih]
    rfl

/-- The text is that of all bytes while they fit, where no character is cut. -/
theorem output_text (hchars : Utf8.uncut chunks = true)
    (hfits : ∀ first chunk last, chunks = first ++ chunk :: last →
      (Utf8.encode (Utf8.decode first.flatten) ++ chunk).length ≤ maxOutputBytes) :
    (output maxOutputBytes chunks).text = Utf8.decode chunks.flatten := by
  rw [Utf8.decode_flatten hchars]
  induction chunks using List.reverseRecOn with
  | nil => rfl
  | append_singleton chunks chunk ih =>
    have hcut := Utf8.uncut_of_append hchars
    have htext := ih hcut fun first other last heq =>
      hfits first other (last ++ [chunk]) (by simp [heq])
    have hlength := hfits chunks chunk [] rfl
    rw [Utf8.decode_flatten hcut] at hlength
    rw [output_snoc, List.map_append, List.flatten_append, ← htext]
    show appendCapped _ _ _ = _
    rw [appendCapped, htext]
    rw [if_pos hlength, Utf8.decode_encode_append, List.map_singleton, List.flatten_singleton]

/-- The result holds the redaction of the whole output, while it fits. -/
theorem onClose_output (hchars : Utf8.uncut chunks = true)
    (hfits : ∀ first chunk last, chunks = first ++ chunk :: last →
      (Utf8.encode (Utf8.decode first.flatten) ++ chunk).length ≤ maxOutputBytes) :
    onClose (output maxOutputBytes chunks) = redactSecrets (Utf8.decode chunks.flatten) := by
  rw [onClose, output_text hchars hfits]

/-- The hook gets the redaction of the whole output where no chunk ends inside a character that the
next one goes on with, and no match of a pattern, in the pass that looks for it, is cut by the end
of a chunk. -/
theorem chunks_redacted (hchars : Utf8.uncut chunks = true)
    (hsecrets : Regex.uncutAll secretPatterns (chunks.map Utf8.decode) = true) :
    (output maxOutputBytes chunks).calls.flatten = redactSecrets (Utf8.decode chunks.flatten) := by
  rw [output_calls, Utf8.decode_flatten hchars, redactSecrets, Regex.applyAll_flatten hsecrets,
    List.map_map]
  rfl

/-- A key may be cut before its word. -/
theorem chunks_redacted_key :
    (output 1000000 [Utf8.encode "MY_".toList, Utf8.encode "TOKEN=abc x\n".toList,
      Utf8.encode "Bearer é".toList]).calls.flatten =
    redactSecrets (Utf8.decode [Utf8.encode "MY_".toList, Utf8.encode "TOKEN=abc x\n".toList,
      Utf8.encode "Bearer é".toList].flatten) :=
  chunks_redacted (by decide +kernel) (by decide +kernel)

/-- A secret whose key is cut in its word reaches the hook. -/
theorem secret_shown :
    ¬ (output 1000000 [Utf8.encode "TOK".toList, Utf8.encode "EN=abc".toList]).calls.flatten =
      redactSecrets
        (Utf8.decode [Utf8.encode "TOK".toList, Utf8.encode "EN=abc".toList].flatten) ∧
    (output 1000000 [Utf8.encode "TOK".toList, Utf8.encode "EN=abc".toList]).calls.flatten =
      "TOKEN=abc".toList := by
  decide +kernel

end MiracleAuction.Redaction
