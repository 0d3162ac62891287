import Bindery.Proofs.Attempts
import Bindery.Proofs.Synopsis.Machine

/-!
# What the reader of a synopsis refuses

The counterpart of what one step can do: the ways in which a token is refused, and those in which the
end of a line comes too early. A text is never refused. A line that is not read has one token that is
refused by a reader that has taken all tokens in front of it, or it ends too early.
-/

namespace Bindery.Synopsis
set_option autoImplicit false

open Bindery.Text (Span)

/-- The reader refuses a token with an error. -/
inductive Progress.Refuses (p : Progress) : Token → Error → Prop
  | beforeName {mark : Mark} {span : Span} (here : p.place = .beforeName) (other : mark ≠ .name) :
      p.Refuses ⟨.mark mark, span⟩ ⟨.missingName, span⟩
  | blankName {opening span : Span} {text : List Char} (here : p.place = .inName opening text)
      (blank : Text.allBlank text = true) :
      p.Refuses ⟨.mark .name, span⟩ ⟨.emptyName, opening.through span⟩
  | inName {opening span : Span} {text : List Char} {mark : Mark}
      (here : p.place = .inName opening text) (other : mark ≠ .name) :
      p.Refuses ⟨.mark mark, span⟩ ⟨.unexpectedToken, span⟩
  | secondName {span : Span} (here : p.place = .body) :
      p.Refuses ⟨.mark .name, span⟩ ⟨.unexpectedToken, span⟩
  | unopened {span : Span} (here : p.place = .body) (outside : p.groups = []) :
      p.Refuses ⟨.mark .optionalClose, span⟩ ⟨.unexpectedToken, span⟩
  | blankParameter {opening span : Span} {text : List Char}
      (here : p.place = .inParameter opening text) (blank : Text.allBlank text = true) :
      p.Refuses ⟨.mark .parameter, span⟩ ⟨.emptyParameter, opening.through span⟩
  | inParameter {opening span : Span} {text : List Char} {mark : Mark}
      (here : p.place = .inParameter opening text) (other : mark ≠ .parameter) :
      p.Refuses ⟨.mark mark, span⟩ ⟨.unexpectedToken, span⟩

/-- The reader cannot end a line of `length` bytes here. -/
inductive Progress.Lacks (p : Progress) (length : Nat) : Error → Prop
  | name (here : p.place = .beforeName) : p.Lacks length ⟨.missingName, ⟨0, length⟩⟩
  | endOfName {opening : Span} {text : List Char} (here : p.place = .inName opening text) :
      p.Lacks length ⟨.unterminatedName, opening⟩
  | endOfParameter {opening : Span} {text : List Char} (here : p.place = .inParameter opening text) :
      p.Lacks length ⟨.unterminatedParameter, opening⟩
  | endOfGroup {group : Group} {outer : List Group} (here : p.place = .body)
      (inside : p.groups = group :: outer) : p.Lacks length ⟨.unterminatedOptional, group.opening⟩

variable {p : Progress} {token : Token} {tokens : List Token} {e : Error}

theorem refuses_of_step (failed : p.step token = .error e) : p.Refuses token e := by
  obtain ⟨mark | content, span⟩ := token
  · unfold Progress.step at failed
    cases here : p.place with
    | beforeName =>
      rw [here] at failed
      cases mark with
      | name => cases failed
      | _ =>
        cases failed
        exact .beforeName here (by decide)
    | inName opening text =>
      rw [here] at failed
      cases mark with
      | name =>
        simp only at failed
        split at failed
        · next blank =>
          cases failed
          exact .blankName here blank
        · cases failed
      | _ =>
        cases failed
        exact .inName here (by decide)
    | body =>
      rw [here] at failed
      cases mark with
      | name =>
        cases failed
        exact .secondName here
      | parameter => cases failed
      | optionalOpen => cases failed
      | optionalClose =>
        cases groups : p.groups with
        | nil =>
          simp only [groups] at failed
          cases failed
          exact .unopened here groups
        | cons group outer =>
          simp only [groups] at failed
          cases failed
    | inParameter opening text =>
      rw [here] at failed
      cases mark with
      | parameter =>
        simp only at failed
        split at failed
        · next blank =>
          cases failed
          exact .blankParameter here blank
        · cases failed
      | _ =>
        cases failed
        exact .inParameter here (by decide)
  · unfold Progress.step at failed
    cases here : p.place <;> rw [here] at failed <;> cases failed

theorem lacks_of_finish {length : Nat} (failed : p.finish length = .error e) : p.Lacks length e := by
  unfold Progress.finish at failed
  cases here : p.place with
  | beforeName =>
    rw [here] at failed
    cases failed
    exact .name here
  | inName opening text =>
    rw [here] at failed
    cases failed
    exact .endOfName here
  | inParameter opening text =>
    rw [here] at failed
    cases failed
    exact .endOfParameter here
  | body =>
    rw [here] at failed
    cases inside : p.groups with
    | nil =>
      rw [inside] at failed
      cases failed
    | cons group outer =>
      rw [inside] at failed
      cases failed
      exact .endOfGroup here inside

/-- A run that fails has taken all tokens in front of the one that is refused. -/
theorem step_error_of_foldlM (failed : tokens.foldlM Progress.step p = .error e) :
    ∃ before token after q, tokens = before ++ token :: after ∧ Reads p before q ∧
      q.step token = .error e := by
  induction tokens generalizing p with
  | nil => cases failed
  | cons token tokens ih =>
    rw [List.foldlM_cons, bind_eq_error] at failed
    rcases failed with here | ⟨q, taken, later⟩
    · exact ⟨[], token, tokens, p, rfl, reads_nil.2 rfl, here⟩
    · obtain ⟨before, other, after, r, rfl, reads, refused⟩ := ih later
      exact ⟨token :: before, other, after, r, rfl, Reads.cons taken reads, refused⟩

/-- **A line that is not read** has a token that is refused, or it ends too early. -/
theorem parseChars_error {line : List Char} (failed : parseChars line = .error e) :
    (∃ before token after p, tokenize line = before ++ token :: after ∧ Reads .start before p ∧
        p.step token = .error e) ∨
      ∃ p, Reads .start (tokenize line) p ∧ p.finish (Text.byteLength line) = .error e := by
  unfold parseChars at failed
  rcases bind_eq_error.1 failed with refused | ⟨p, reads, failed⟩
  · exact Or.inl (step_error_of_foldlM refused)
  · rcases bind_eq_error.1 failed with lacking | ⟨done, -, failed⟩
    · exact Or.inr ⟨p, reads, lacking⟩
    · cases failed

end Bindery.Synopsis
