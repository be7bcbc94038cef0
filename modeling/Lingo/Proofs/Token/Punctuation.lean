/-
Tokens with punctuation between them.

Punctuation ends the token in front of it as a blank does, so no blank need stand before it.  The
dot is the exception: behind digits it goes on with the number.
-/

import Lingo.Proofs.Token.Spelling

namespace Lingo.Lexer

attribute [local instance (high)] instPowNat

/-- Punctuation, a blank or the end of the text makes the given tokens the ones that were read. -/
structure State.Closes (state : State) (words : List Token) : Prop where
  holds : state.Holds words
  punctuated : ∀ {char : Char} {token : Token}, single? char = some token → char ≠ '.' →
    (state.feed char).Stands (words ++ [token])

theorem State.Stands.closes {state : State} {words : List Token} (stands : state.Stands words) :
    state.Closes words :=
  ⟨stands.holds, fun known _ => stands.punctuation known⟩

/-! ### Texts that punctuation may follow -/

/-- Wherever it stands between tokens, a text is read as the words, and punctuation may follow. -/
def Scans (text : String) (words : List Token) : Prop :=
  ∀ (state : State) (before : List Token), state.Stands before →
    (text.toList.foldl State.feed state).Closes (before ++ words)

theorem scans_int {n : Nat} (short : n < 10 ^ Numeral.digitLimit) :
    Scans (toString n) [.int n] := by
  intro state before stands
  refine ⟨stands.int short, ?_⟩
  intro char token known noDot
  obtain ⟨mark, tokens, rfl, read⟩ := stands.exists_eq
  obtain ⟨after, digits, collected, few, value⟩ := foldl_feed_digits mark tokens short
  have noDigit : ¬ char.isDigit = true := by
    intro digit
    rw [single?_of_isAlphanum (isAlphanum_of_isDigit digit)] at known
    cases known
  have ended : State.feed { status := .reading (.digits mark digits), mark := after, tokens } char =
      State.feed { status := .reading .between, mark := after, tokens := (.int n, mark) :: tokens }
        char := by
    simp only [State.feed, State.feedIn, if_neg noDigit, if_neg noDot, State.emitInt, if_neg few,
      value]
    rfl
  rw [collected, ended]
  exact State.Stands.punctuation ⟨rfl, map_fst_cons read _ _⟩ known

theorem scans_minus {n : Nat} (short : n < 10 ^ Numeral.digitLimit) :
    Scans ("-" ++ toString n) [.symbol .minus, .int n] := by
  intro state before stands
  obtain ⟨mark, tokens, rfl, read⟩ := stands.exists_eq
  have opened : State.feed { status := .reading .between, mark, tokens } '-' =
      { status := .reading (.minus mark), mark := mark.after '-', tokens } := rfl
  -- The first digit ends the minus and begins the number.
  have ended : (toString n).toList.foldl State.feed
        { status := .reading (.minus mark), mark := mark.after '-', tokens } =
      (toString n).toList.foldl State.feed
        { status := .reading .between, mark := mark.after '-',
          tokens := (.symbol .minus, mark) :: tokens } := by
    have spelt : (toString n).toList = Nat.toDigits 10 n := Nat.toList_repr
    rw [spelt]
    cases written : Nat.toDigits 10 n with
    | nil => exact absurd written Nat.toDigits_ne_nil
    | cons first rest =>
        have digit : first.isDigit = true :=
          Nat.isDigit_of_mem_toDigits (by decide) (by decide) (written ▸ List.mem_cons_self)
        have noArrow : first ≠ '>' := by
          intro same
          rw [same] at digit
          cases digit
        rw [List.foldl_cons, List.foldl_cons]
        simp only [State.feed, State.feedIn, State.symbol, if_neg noArrow]
        rfl
  have minus : State.Stands
      { status := .reading .between, mark := mark.after '-',
        tokens := (.symbol .minus, mark) :: tokens } (before ++ [.symbol .minus]) :=
    ⟨rfl, map_fst_cons read _ _⟩
  have closes := scans_int short _ _ minus
  rw [List.append_assoc, List.singleton_append] at closes
  rw [String.toList_append, List.foldl_append]
  change ((toString n).toList.foldl State.feed
    (State.feed { status := .reading .between, mark, tokens } '-')).Closes _
  rw [opened, ended]
  exact closes

theorem scans_string {text : String} (plain : ∀ char ∈ text.toList, char ≠ '"' ∧ char ≠ '\\') :
    Scans ("\"" ++ text ++ "\"") [.string text] :=
  fun _ _ stands => (stands.string plain).closes

variable {text more sign : String} {words others : List Token} {char : Char} {token : Token}

theorem Scans.separated (first : Scans text words) (second : Scans more others)
    (spelt : sign.toList = [char, ' ']) (known : single? char = some token) (noDot : char ≠ '.') :
    Scans (text ++ sign ++ more) (words ++ token :: others) := by
  intro state before stands
  have marked := (first state before stands).punctuated known noDot
  have closes := second _ _ marked.holds.1
  rw [String.toList_append, String.toList_append, spelt, List.foldl_append, List.foldl_append]
  rw [List.append_assoc, List.append_assoc, List.singleton_append] at closes
  exact closes

theorem Scans.opened (scans : Scans text words) (spelt : sign.toList = [char])
    (known : single? char = some token) : Scans (sign ++ text) (token :: words) := by
  intro state before stands
  have closes := scans _ _ (stands.punctuation known)
  rw [List.append_assoc, List.singleton_append] at closes
  rw [String.toList_append, spelt, List.foldl_append]
  exact closes

theorem Scans.closed (scans : Scans text words) (spelt : sign.toList = [char])
    (known : single? char = some token) (noDot : char ≠ '.') :
    Scans (text ++ sign) (words ++ [token]) := by
  intro state before stands
  have closed := ((scans state before stands).punctuated known noDot).closes
  rw [List.append_assoc] at closed
  rw [String.toList_append, spelt, List.foldl_append]
  exact closed

theorem scans_nothing : Scans "" [] := by
  intro state before stands
  rw [List.append_nil]
  exact stands.closes

theorem Scans.read (scans : Scans text words) (name : String) :
    ∃ placed, read { name, text } = .tokens placed ∧
      placed.map Placed.token = words ++ [.eof] := by
  have origin : State.start.Stands [] := ⟨rfl, rfl⟩
  exact read_of_holds name (scans _ _ origin).holds

end Lingo.Lexer
