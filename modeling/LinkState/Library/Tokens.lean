import Mathlib.Data.List.Basic

/-!
# Fields in a text

A text of fields, each ended by a separator, and the tokenizer that reads it back. Empty tokens
are dropped, so a field must not be empty, and what stands after the last separator of the text
adds tokens at the end only (`tokens_terminated`).
-/

namespace LinkState

variable {α : Type*} [DecidableEq α]

/-- The non-empty pieces of a text between separators. -/
def tokens (sep : α) (text : List α) : List (List α) :=
  (text.splitOn sep).filter fun t => t ≠ []

/-- Fields one after another, each with the separator behind it. -/
def terminated (sep : α) (fields : List (List α)) : List α :=
  fields.flatMap fun t => t ++ [sep]

/-- A text the tokenizer gives back as one token. -/
def IsField (sep : α) (t : List α) : Prop := t ≠ [] ∧ sep ∉ t

theorem tokens_append_sep {sep : α} {t : List α} (h : IsField sep t) (text : List α) :
    tokens sep (t ++ sep :: text) = t :: tokens sep text := by
  rw [tokens, List.splitOn_append_cons_self_of_not_mem h.2]
  simp [tokens, h.1]

/-- **The tokenizer gives the fields back**, and then the tokens of the rest. -/
theorem tokens_terminated {sep : α} {fields : List (List α)} (h : ∀ t ∈ fields, IsField sep t)
    (rest : List α) : tokens sep (terminated sep fields ++ rest) = fields ++ tokens sep rest := by
  induction fields with
  | nil => simp [terminated]
  | cons t fields ih =>
    have htail := ih fun u hu => h u (List.mem_cons_of_mem t hu)
    have hsplit : terminated sep (t :: fields) ++ rest =
        t ++ sep :: (terminated sep fields ++ rest) := by simp [terminated]
    rw [hsplit, tokens_append_sep (h t List.mem_cons_self), htail]
    rfl

/-- A text is of one list of fields. -/
theorem terminated_inj {sep : α} {fields fields' : List (List α)}
    (h : ∀ t ∈ fields, IsField sep t) (h' : ∀ t ∈ fields', IsField sep t)
    (heq : terminated sep fields = terminated sep fields') : fields = fields' := by
  have hread := tokens_terminated h []
  rw [heq, tokens_terminated h' []] at hread
  exact (List.append_cancel_right hread).symm

omit [DecidableEq α] in
/-- A text to which a loop appends, each time with the separator first, is terminated when the
last separator is put behind it. -/
theorem foldl_append_sep {β : Type*} {sep : α} {append : List α → β → List α}
    (fields : β → List (List α))
    (h : ∀ text b, append text b ++ [sep] = text ++ [sep] ++ terminated sep (fields b))
    (bs : List β) (text : List α) :
    bs.foldl append text ++ [sep] = text ++ [sep] ++ terminated sep (bs.flatMap fields) := by
  induction bs generalizing text with
  | nil => simp [terminated]
  | cons b bs ih =>
    rw [List.foldl_cons, ih, h]
    simp [terminated, List.append_assoc]

end LinkState
