import SigV4.Credential
import SigV4.Proofs.RedactedText
import Mathlib.Data.List.Forall2
/-!
What is printed of a credential, on one line or on several. Its three values stand between texts
that no value can be taken for, so either form can be read back, and two credentials are printed
alike just if each value of the one is shown as that of the other.
-/
namespace SigV4.Credential

variable {layout : Char → List Char}

def asIs (character : Char) : List Char := [character]

def indent (character : Char) : List Char :=
  if character = '\n' then '\n' :: List.replicate 4 ' ' else [character]

def Leading (layout : Char → List Char) : Prop :=
  ∀ character, ∃ more, layout character = character :: more

theorem leading_asIs : Leading asIs := fun _ => ⟨[], rfl⟩

theorem leading_indent : Leading indent := by
  intro character
  rw [indent]
  split
  next feed => exact ⟨List.replicate 4 ' ', by rw [feed]⟩
  next => exact ⟨[], rfl⟩

theorem flatMap_asIs (characters : List Char) : characters.flatMap asIs = characters :=
  List.flatMap_singleton' characters

theorem toList_indented (value : String) :
    (indented value).toList = value.toList.flatMap indent := by
  rw [indented, String.toList_ofList]
  rfl

/-- Secrets as they are shown, each with the text that follows it. -/
def laid (layout : Char → List Char) : List String → List String → List Char
  | secret :: secrets, mark :: marks =>
      (Redact.text secret).toList.flatMap layout ++ (mark.toList ++ laid layout secrets marks)
  | _, _ => []

def secrets (credential : Credential) : List String :=
  [credential.accessKeyId, credential.secretAccessKey, credential.sessionToken.getD ""]

-- What stands behind each value, up to the next. None starts with a star, so that no value can be
-- taken for the beginning of a longer one.
def inlineMarks : List String := [", secret_access_key: ", ", session_token: ", " \x7d"]

def linesMarks : List String := [",\n    secret_access_key: ", ",\n    session_token: ", ",\n\x7d"]

theorem toList_inlineText (credential : Credential) :
    credential.inlineText.toList =
      "Credential \x7b access_key_id: ".toList ++ laid asIs credential.secrets inlineMarks := by
  simp [inlineText, fields, laid, secrets, inlineMarks, flatMap_asIs, Redact.optional]

theorem toList_linesText (credential : Credential) :
    credential.linesText.toList =
      "Credential \x7b\n    access_key_id: ".toList ++
        laid indent credential.secrets linesMarks := by
  simp [linesText, fields, laid, secrets, linesMarks, toList_indented, Redact.optional]

-- Induction on one text: the other starts with the same character, since what is written for
-- either is led by it.
theorem tail_of_flatMap (leading : Leading layout) {left right before after : List Char}
    (same : left.flatMap layout ++ before = right.flatMap layout ++ after) :
    (∃ tail, right = left ++ tail ∧ before = tail.flatMap layout ++ after) ∨
    (∃ tail, left = right ++ tail ∧ after = tail.flatMap layout ++ before) := by
  induction left generalizing right with
  | nil => exact Or.inl ⟨right, rfl, same⟩
  | cons first others ih =>
      cases right with
      | nil => exact Or.inr ⟨first :: others, rfl, same.symm⟩
      | cons second rest =>
          rw [List.flatMap_cons, List.flatMap_cons, List.append_assoc, List.append_assoc] at same
          obtain ⟨more, spelled⟩ := leading first
          obtain ⟨again, repeated⟩ := leading second
          have heads : first = second := by
            rw [spelled, repeated] at same
            exact (List.cons.inj same).1
          subst heads
          rcases ih (List.append_cancel_left same) with ⟨tail, rfl, rest⟩ | ⟨tail, rfl, rest⟩
          · exact Or.inl ⟨tail, rfl, rest⟩
          · exact Or.inr ⟨tail, rfl, rest⟩

/-- A text that is shown ends where it is not followed by a star. -/
theorem tail_of_laid (leading : Leading layout) {left right : String}
    {tail before after : List Char}
    (longer : (Redact.text right).toList = (Redact.text left).toList ++ tail)
    (rest : before = tail.flatMap layout ++ after) (apart : before.head? ≠ some '*') :
    tail = [] := by
  have shown : Redact.text right = Redact.text left ++ String.ofList tail := by
    rw [← String.toList_inj, longer, String.toList_append, String.toList_ofList]
  refine String.ofList_eq_empty_iff.mp (Redact.tail_of_text shown ?_)
  rw [String.toList_ofList]
  intro starred
  obtain ⟨others, rfl⟩ := List.head?_eq_some_iff.mp starred
  obtain ⟨more, spelled⟩ := leading '*'
  rw [rest, List.flatMap_cons, spelled] at apart
  exact apart rfl

theorem text_of_laid (leading : Leading layout) {left right : String} {before after : List Char}
    (same : (Redact.text left).toList.flatMap layout ++ before =
      (Redact.text right).toList.flatMap layout ++ after)
    (before_apart : before.head? ≠ some '*') (after_apart : after.head? ≠ some '*') :
    Redact.text left = Redact.text right ∧ before = after := by
  rcases tail_of_flatMap leading same with ⟨tail, longer, rest⟩ | ⟨tail, longer, rest⟩
  · obtain rfl := tail_of_laid leading longer rest before_apart
    rw [List.append_nil] at longer
    exact ⟨(String.toList_inj.mp longer).symm, rest⟩
  · obtain rfl := tail_of_laid leading longer rest after_apart
    rw [List.append_nil] at longer
    exact ⟨String.toList_inj.mp longer, rest.symm⟩

def isPlain (mark : String) : Bool := mark.toList.head?.any (· ≠ '*')

theorem head?_plain {mark : String} (plain : isPlain mark = true) (after : List Char) :
    (mark.toList ++ after).head? ≠ some '*' := by
  obtain ⟨first, found, apart⟩ := (Option.any_eq_true _ _).mp plain
  rw [List.head?_append, found]
  exact fun starred => of_decide_eq_true apart (Option.some.inj starred)

-- Induction on the marks: the first value of either side ends before its mark, so both the values
-- and what stands behind them are the same.
theorem laid_eq_iff (leading : Leading layout) {lefts rights marks : List String}
    (plain : ∀ mark ∈ marks, isPlain mark = true) (fits : lefts.length = marks.length)
    (fit : rights.length = marks.length) :
    laid layout lefts marks = laid layout rights marks ↔
      List.Forall₂ Redact.Lookalike lefts rights := by
  induction marks generalizing lefts rights with
  | nil =>
      obtain rfl := List.length_eq_zero_iff.mp fits
      obtain rfl := List.length_eq_zero_iff.mp fit
      simp
  | cons mark others ih =>
      obtain ⟨left, lefts, rfl⟩ := List.exists_cons_of_length_eq_add_one fits
      obtain ⟨right, rights, rfl⟩ := List.exists_cons_of_length_eq_add_one fit
      have rest := ih (fun mark member => plain mark (List.mem_cons_of_mem _ member))
        (Nat.succ.inj fits) (Nat.succ.inj fit)
      rw [List.forall₂_cons, ← rest, ← Redact.text_eq_iff, laid, laid]
      constructor
      · intro same
        have apart := head?_plain (plain mark List.mem_cons_self)
        obtain ⟨texts, tails⟩ := text_of_laid leading same (apart _) (apart _)
        exact ⟨texts, List.append_cancel_left tails⟩
      · rintro ⟨texts, tails⟩
        rw [texts, tails]

/-- Each value of one is shown as that of the other; no token is as an empty one. -/
structure Lookalike (left right : Credential) : Prop where
  accessKeyId : Redact.Lookalike left.accessKeyId right.accessKeyId
  secretAccessKey : Redact.Lookalike left.secretAccessKey right.secretAccessKey
  sessionToken : Redact.Lookalike (left.sessionToken.getD "") (right.sessionToken.getD "")

theorem length_secrets (credential : Credential) : credential.secrets.length = 3 := rfl

theorem forall₂_secrets {left right : Credential} :
    List.Forall₂ Redact.Lookalike left.secrets right.secrets ↔ left.Lookalike right := by
  rw [secrets, secrets, List.forall₂_cons, List.forall₂_cons, List.forall₂_cons]
  exact ⟨fun ⟨key, secret, token, _⟩ => ⟨key, secret, token⟩,
    fun alike => ⟨alike.accessKeyId, alike.secretAccessKey, alike.sessionToken, .nil⟩⟩

theorem inlineText_eq_iff {left right : Credential} :
    left.inlineText = right.inlineText ↔ left.Lookalike right := by
  have plain : ∀ mark ∈ inlineMarks, isPlain mark = true := by decide
  rw [← String.toList_inj, toList_inlineText, toList_inlineText, List.append_cancel_left_eq]
  exact (laid_eq_iff leading_asIs plain left.length_secrets right.length_secrets).trans
    forall₂_secrets

theorem linesText_eq_iff {left right : Credential} :
    left.linesText = right.linesText ↔ left.Lookalike right := by
  have plain : ∀ mark ∈ linesMarks, isPlain mark = true := by decide
  rw [← String.toList_inj, toList_linesText, toList_linesText, List.append_cancel_left_eq]
  exact (laid_eq_iff leading_indent plain left.length_secrets right.length_secrets).trans
    forall₂_secrets

/-- Showing a secret is defined for every text, and of two credentials either printed form is the
same just if they are empty and legible in the same places and, where they are legible, have the
same three octets at either end. -/
theorem printed_alike_iff :
    (∀ secret, Redact.sliced? secret = some (Redact.text secret)) ∧
    ∀ left right : Credential,
      (left.inlineText = right.inlineText ↔ left.Lookalike right) ∧
      (left.linesText = right.linesText ↔ left.Lookalike right) :=
  ⟨Redact.sliced?_eq, fun _ _ => ⟨inlineText_eq_iff, linesText_eq_iff⟩⟩

end SigV4.Credential
