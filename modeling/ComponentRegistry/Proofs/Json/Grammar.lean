import ComponentRegistry.Json.Comments
import ComponentRegistry.Json.Reader
import Mathlib.Data.List.Chain
import Mathlib.Data.List.Infix

/-!
# JSON texts and their tokens

Which tokens write a value (`Writes`), and how tokens are laid out as text: with blanks between them
(`Spaced`), or with comments too and a comma behind the last element of a container (`Extended`).
A word, a number or a string is one token (`Literal`).
-/

namespace ComponentRegistry.Json

/-! ## Tokens -/

inductive Token where
  | listStart
  | listEnd
  | objectStart
  | objectEnd
  | colon
  | comma
  /-- A word, a number or a string, as it is written. -/
  | literal (text : List Char)
  deriving DecidableEq, Repr

namespace Token

def text : Token → List Char
  | .listStart => ['[']
  | .listEnd => [']']
  | .objectStart => ['\x7b']
  | .objectEnd => ['\x7d']
  | .colon => [':']
  | .comma => [',']
  | .literal text => text

/-- The token opens a container. -/
def opens : Token → Bool
  | .listStart | .objectStart => true
  | _ => false

/-- The token closes a container. -/
def closes : Token → Bool
  | .listEnd | .objectEnd => true
  | _ => false

end Token

/-! ## Tokens of values -/

/-- Four hexadecimal digits and their number. -/
inductive FourDigits : List Char → Nat → Prop where
  | mk {c₁ c₂ c₃ c₄ : Char} {d₁ d₂ d₃ d₄ : Nat} :
    Reader.fourDigits.hexValue? c₁ = some d₁ → Reader.fourDigits.hexValue? c₂ = some d₂ →
    Reader.fourDigits.hexValue? c₃ = some d₃ → Reader.fourDigits.hexValue? c₄ = some d₄ →
    FourDigits [c₁, c₂, c₃, c₄] (((d₁ * 16 + d₂) * 16 + d₃) * 16 + d₄)

/-- The escapes of one letter. -/
def shortEscapes : List (Char × Char) :=
  [('"', '"'), ('\\', '\\'), ('/', '/'), ('b', '\x08'), ('f', '\x0c'), ('n', '\n'), ('r', '\r'),
    ('t', '\t')]

/-- What stands behind a backslash, and the character it writes: one beyond `\uFFFF` is a pair of
surrogates. -/
inductive Escape : List Char → Char → Prop where
  | short {e c : Char} : (e, c) ∈ shortEscapes → Escape [e] c
  | single {s : List Char} {c : Char} : FourDigits s c.toNat → Escape ('u' :: s) c
  | pair {s t : List Char} {high low : Nat} {c : Char} :
    FourDigits s high → FourDigits t low →
    0xD800 ≤ high → high ≤ 0xDBFF → 0xDC00 ≤ low → low ≤ 0xDFFF →
    c.toNat = 0x10000 + (high - 0xD800) * 0x400 + (low - 0xDC00) →
    Escape ('u' :: (s ++ '\\' :: 'u' :: t)) c

/-- What stands between quotes, and the characters it writes. -/
inductive Spells : List Char → List Char → Prop where
  | nil : Spells [] []
  | plain {c : Char} {s cs : List Char} :
    c ≠ '"' → c ≠ '\\' → 32 ≤ c.toNat → Spells s cs → Spells (c :: s) (c :: cs)
  | escape {c : Char} {e s cs : List Char} :
    Escape e c → Spells s cs → Spells ('\\' :: (e ++ s)) (c :: cs)

/-- The text writes a value that holds no others.  A number is what the reader finds in the text
alone. -/
inductive Literal : List Char → Json → Prop where
  | null : Literal "null".toList .null
  | true : Literal "true".toList (.bool true)
  | false : Literal "false".toList (.bool false)
  | number {text : List Char} {n : JsonNumber} :
    parse (String.ofList text) = .ok (.number n) → Text.trim text = text →
    Literal text (.number n)
  | string {s cs : List Char} :
    Spells s cs → Literal ('"' :: (s ++ ['"'])) (.string (String.ofList cs))

/-- What tokens may write. -/
inductive Phrase where
  | value (v : Json)
  /-- The elements of a list, one at least. -/
  | items (vs : List Json)
  /-- The members of an object, one at least, in the order they are written. -/
  | members (ms : List (String × Json))

/-- The tokens write the phrase, and containers in it nest `n` deep. -/
inductive Writes : Nat → Phrase → List Token → Prop where
  | literal {text : List Char} {v : Json} :
    Literal text v → Writes 0 (.value v) [.literal text]
  | emptyList : Writes 1 (.value (.array [])) [.listStart, .listEnd]
  | list {n : Nat} {vs : List Json} {ts : List Token} :
    Writes n (.items vs) ts →
    Writes (n + 1) (.value (.array vs)) (.listStart :: (ts ++ [.listEnd]))
  | emptyObject : Writes 1 (.value (.object [])) [.objectStart, .objectEnd]
  | object {n : Nat} {ms : List (String × Json)} {ts : List Token} :
    Writes n (.members ms) ts →
    Writes (n + 1) (.value (ofMembers ms)) (.objectStart :: (ts ++ [.objectEnd]))
  | item {n : Nat} {v : Json} {ts : List Token} :
    Writes n (.value v) ts → Writes n (.items [v]) ts
  | items {m n : Nat} {v : Json} {vs : List Json} {ts us : List Token} :
    Writes m (.value v) ts → Writes n (.items vs) us →
    Writes (max m n) (.items (v :: vs)) (ts ++ .comma :: us)
  | member {n : Nat} {text : List Char} {key : String} {v : Json} {ts : List Token} :
    Literal text (.string key) → Writes n (.value v) ts →
    Writes n (.members [(key, v)]) (.literal text :: .colon :: ts)
  | members {m n : Nat} {text : List Char} {key : String} {v : Json} {ms : List (String × Json)}
      {ts us : List Token} :
    Literal text (.string key) → Writes m (.value v) ts → Writes n (.members ms) us →
    Writes (max m n) (.members ((key, v) :: ms)) (.literal text :: .colon :: (ts ++ .comma :: us))

/-! ## Layout -/

/-- What JSON allows between tokens. -/
def isSpace (c : Char) : Bool := c = ' ' || c = '\t' || c = '\r' || c = '\n'

def Blanks (text : List Char) : Prop := ∀ c ∈ text, isSpace c = true

/-- Blanks and comments; a block comment ends where its body would hold `*/`. -/
inductive Trivia : List Char → Prop where
  | nil : Trivia []
  | blank {c : Char} {rest : List Char} : isSpace c = true → Trivia rest → Trivia (c :: rest)
  | line {body rest : List Char} :
    '\n' ∉ body → Trivia rest → Trivia ('/' :: '/' :: (body ++ '\n' :: rest))
  | block {body rest : List Char} :
    ¬ ['*', '/'] <:+: body → Trivia rest → Trivia ('/' :: '*' :: (body ++ '*' :: '/' :: rest))

/-- Blanks and comments at the end of a text, where a line comment needs no line feed. -/
def FinalTrivia (text : List Char) : Prop :=
  Trivia text ∨ ∃ before body, Trivia before ∧ '\n' ∉ body ∧ text = before ++ '/' :: '/' :: body

/-- The tokens in order, each with such a gap before it. -/
inductive Laid (gap : List Char → Prop) : List Token → List Char → Prop where
  | nil : Laid gap [] []
  | cons {g s : List Char} {t : Token} {ts : List Token} :
    gap g → Laid gap ts s → Laid gap (t :: ts) (g ++ (t.text ++ s))

/-- A text of these tokens with nothing but blanks between and around them. -/
def Spaced (ts : List Token) (text : List Char) : Prop :=
  ∃ s g, Laid Blanks ts s ∧ Blanks g ∧ text = s ++ g

/-- The tokens with commas put before some that close a container, unless it is empty; `before?` is
the token before the first one. -/
inductive WithCommas : Option Token → List Token → List Token → Prop where
  | nil {before? : Option Token} : WithCommas before? [] []
  | token {before? : Option Token} {t : Token} {ts us : List Token} :
    WithCommas (some t) ts us → WithCommas before? (t :: ts) (t :: us)
  | comma {before t : Token} {ts us : List Token} :
    before.opens = false → t.closes = true → WithCommas (some t) ts us →
    WithCommas (some before) (t :: ts) (.comma :: t :: us)

/-- A text of these tokens with blanks and comments between and around them, and with commas behind
the last elements of some containers. -/
def Extended (ts : List Token) (text : List Char) : Prop :=
  ∃ us s g, WithCommas none ts us ∧ Laid Trivia us s ∧ FinalTrivia g ∧ text = s ++ g

/-! ## Sequences of tokens -/

section Sequences

variable {gap : List Char → Prop} {ts us : List Token} {s s' : List Char} {t : Token} {n : Nat}
  {φ : Phrase}

theorem Laid.of_append (h : Laid gap (ts ++ us) s) :
    ∃ a b, s = a ++ b ∧ Laid gap ts a ∧ Laid gap us b := by
  induction ts generalizing s with
  | nil => exact ⟨[], s, rfl, .nil, h⟩
  | cons t ts ih =>
    cases h with
    | @cons g s _ _ hg hrest =>
      obtain ⟨a, b, rfl, ha, hb⟩ := ih hrest
      exact ⟨g ++ (t.text ++ a), b, by simp, .cons hg ha, hb⟩

theorem Laid.of_cons (h : Laid gap (t :: ts) s) :
    ∃ g rest, s = g ++ (t.text ++ rest) ∧ gap g ∧ Laid gap ts rest := by
  cases h with
  | cons hg hrest => exact ⟨_, _, rfl, hg, hrest⟩

/-- Values and members begin with a literal, or by opening a container. -/
theorem Writes.head (h : Writes n φ ts) :
    ∃ t rest, ts = t :: rest ∧ (t.opens = true ∨ ∃ text v, t = .literal text ∧ Literal text v) := by
  induction h with
  | literal hlit => exact ⟨_, _, rfl, .inr ⟨_, _, rfl, hlit⟩⟩
  | emptyList => exact ⟨_, _, rfl, .inl rfl⟩
  | list _ _ => exact ⟨_, _, rfl, .inl rfl⟩
  | emptyObject => exact ⟨_, _, rfl, .inl rfl⟩
  | object _ _ => exact ⟨_, _, rfl, .inl rfl⟩
  | item _ ih => exact ih
  | items _ _ ih _ =>
    obtain ⟨t, rest, rfl, ht⟩ := ih
    exact ⟨t, _, rfl, ht⟩
  | member hlit _ _ => exact ⟨_, _, rfl, .inr ⟨_, _, rfl, hlit⟩⟩
  | members hlit _ _ _ _ => exact ⟨_, _, rfl, .inr ⟨_, _, rfl, hlit⟩⟩

end Sequences

end ComponentRegistry.Json
