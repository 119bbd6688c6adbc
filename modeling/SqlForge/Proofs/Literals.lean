import SqlForge.Proofs.Filling

/-!
# Bodies of string literals

Between its quotes a literal has plain characters and pairs that stand for one
character. Escaping writes such a body, trimming leaves one, and so does
putting one in the place of a placeholder: a placeholder is made of plain
characters, and no pair ends in the colon or the padding that would be cut off.
-/

namespace SqlForge

namespace Flavor

/-- May `c` stand by itself between the quotes of a literal? -/
def isPlain : Flavor → Char → Bool
  | mysql, c => c != '\'' && c != '\\'
  | postgres, c | sqlite, c => c != '\''

/-- The pairs that stand for one character between the quotes of a literal. -/
def pairs : Flavor → List (Char × Char)
  | mysql => ['0', 'n', 'r', 'Z', '\'', '"', '\\'].map ('\\', ·)
  | postgres | sqlite => [('\'', '\'')]

theorem pairs_spec (f : Flavor) : ∀ p ∈ f.pairs,
    f.isPlain p.1 = false ∧ p.2 ≠ ':' ∧ Text.isPadding p.2 = false := by
  cases f <;> decide

theorem isPlain_of_ne {f : Flavor} {c : Char} (hq : c ≠ '\'') (hb : c ≠ '\\') :
    f.isPlain c = true := by cases f <;> simp [isPlain, hq, hb]

theorem ne_quote_of_isPlain {f : Flavor} {c : Char} (h : f.isPlain c = true) : c ≠ '\'' := by
  rintro rfl
  cases f <;> cases h

theorem isPlain_of_isWordChar {f : Flavor} {c : Char} (h : isWordChar c = true) :
    f.isPlain c = true := isPlain_of_ne (ne_of_isWordChar h rfl) (ne_of_isWordChar h rfl)

theorem isPlain_of_isPadding {f : Flavor} {c : Char} (h : Text.isPadding c = true) :
    f.isPlain c = true :=
  isPlain_of_ne (fun e => by rw [e] at h; cases h) fun e => by rw [e] at h; cases h

end Flavor

/-- A text that may stand between the quotes of a literal. -/
inductive LiteralBody (f : Flavor) : Text → Prop
  | nil : LiteralBody f []
  | plain {c : Char} {s : Text} (hc : f.isPlain c = true) (hs : LiteralBody f s) :
      LiteralBody f (c :: s)
  | pair {a b : Char} {s : Text} (hp : (a, b) ∈ f.pairs) (hs : LiteralBody f s) :
      LiteralBody f (a :: b :: s)

namespace LiteralBody

variable {f : Flavor} {s t : Text}

theorem append (hs : LiteralBody f s) (ht : LiteralBody f t) : LiteralBody f (s ++ t) := by
  induction hs with
  | nil => exact ht
  | plain hc _ ih => exact .plain hc ih
  | pair hp _ ih => exact .pair hp ih

theorem of_plain : ∀ {s : Text}, (∀ c ∈ s, f.isPlain c = true) → LiteralBody f s
  | [], _ => .nil
  | c :: _, h => .plain (h c List.mem_cons_self) (of_plain fun x hx => h x (List.mem_cons_of_mem _ hx))

theorem tail {c : Char} (hc : f.isPlain c = true) (h : LiteralBody f (c :: s)) : LiteralBody f s := by
  cases h with
  | plain _ hs => exact hs
  | pair hp _ => rw [(f.pairs_spec _ hp).1] at hc; cases hc

theorem drop : ∀ {w : Text}, (∀ c ∈ w, f.isPlain c = true) → LiteralBody f (w ++ s) → LiteralBody f s
  | [], _, h => h
  | c :: _, hw, h => drop (fun x hx => hw x (List.mem_cons_of_mem _ hx)) (h.tail (hw c List.mem_cons_self))

/-! ## Escaping and trimming -/

theorem escapeChar (f : Flavor) (c : Char) : LiteralBody f (f.escapeChar c) := by
  cases f with
  | mysql =>
    simp only [Flavor.escapeChar]
    split
    case h_8 => exact .plain (by simp_all [Flavor.isPlain]) .nil
    all_goals exact .pair (by decide) .nil
  | postgres | sqlite =>
    simp only [Flavor.escapeChar]
    split
    · exact .nil
    · exact .pair (by decide) .nil
    · exact .plain (by simp_all [Flavor.isPlain]) .nil

theorem escape (f : Flavor) : ∀ s : Text, LiteralBody f (f.escape s)
  | [] => .nil
  | c :: s => by
    rw [Flavor.escape, List.flatMap_cons]
    exact (escapeChar f c).append (escape f s)

theorem trimStart (h : LiteralBody f s) : LiteralBody f (Text.trimStart Text.isPadding s) := by
  unfold Text.trimStart
  induction s with
  | nil => exact h
  | cons c s ih =>
    by_cases hc : Text.isPadding c = true
    · rw [List.dropWhile_cons_of_pos hc]
      exact ih (h.tail (Flavor.isPlain_of_isPadding hc))
    · rwa [List.dropWhile_cons_of_neg hc]

theorem trimEnd (h : LiteralBody f s) : LiteralBody f (Text.trimEnd Text.isPadding s) := by
  induction h with
  | nil => exact .nil
  | plain hc _ ih =>
    rw [Text.trimEnd_cons]
    split
    · exact .nil
    · exact .plain hc ih
  | @pair a b s hp _ ih =>
    -- The second character of a pair is no padding, so nothing is cut before it.
    have hb : Text.isPadding b = false := (f.pairs_spec _ hp).2.2
    have hs : Text.trimEnd Text.isPadding (b :: s) = b :: Text.trimEnd Text.isPadding s := by
      rw [Text.trimEnd_cons, hb, if_neg (by simp)]
    rw [Text.trimEnd_cons, hs, if_neg (by simp)]
    exact .pair hp ih

theorem trim (h : LiteralBody f s) : LiteralBody f (Text.trim Text.isPadding s) := h.trimStart.trimEnd

/-! ## Replacing and filling -/

theorem isPlain_of_mem_placeholder {k : Text} (hk : isWord k = true) {c : Char}
    (hc : c ∈ SqlForge.placeholder k) : f.isPlain c = true := by
  simp only [SqlForge.placeholder, List.mem_append, List.mem_cons, List.not_mem_nil, or_false] at hc
  rcases hc with (rfl | hc) | rfl
  · cases f <;> rfl
  · exact Flavor.isPlain_of_isWordChar (isWordChar_of_mem hk hc)
  · cases f <;> rfl

theorem placeholder {k : Text} (hk : isWord k = true) : LiteralBody f (SqlForge.placeholder k) :=
  of_plain fun _ hc => isPlain_of_mem_placeholder hk hc

theorem replace {k v : Text} (hk : isWord k = true) (hv : LiteralBody f v) : ∀ (n : Nat) {s : Text},
    s.length ≤ n → LiteralBody f s → LiteralBody f (Text.replace (SqlForge.placeholder k) v s) := by
  intro n
  induction n with
  | zero =>
    intro s hn _
    rw [List.eq_nil_of_length_eq_zero (Nat.le_zero.mp hn)]
    exact .nil
  | succ n ih =>
    intro s hn hs
    by_cases hp : SqlForge.placeholder k <+: s
    · obtain ⟨t, rfl⟩ := hp
      have ht : LiteralBody f t := hs.drop fun _ hc => isPlain_of_mem_placeholder hk hc
      rw [Text.replace_hit (placeholder_ne_nil k)]
      exact hv.append (ih (by simp [SqlForge.placeholder] at hn; omega) ht)
    · cases hs with
      | nil => exact .nil
      | plain hc hs =>
        rw [Text.replace_miss v hp]
        exact .plain hc (ih (by simpa using hn) hs)
      | @pair a b t ha ht =>
        -- The second character is no colon, so the pair is passed over as a whole.
        have hb : ¬ SqlForge.placeholder k <+: b :: t := by
          intro h
          rw [SqlForge.placeholder, List.cons_append, List.cons_prefix_cons] at h
          exact (f.pairs_spec _ ha).2.1 h.1.symm
        rw [Text.replace_miss v hp, Text.replace_miss v hb]
        exact .pair ha (ih (by simp at hn; omega) ht)

theorem fillOne {e? : Option (Text → Text)} {b : Binding} (hk : isWord b.key = true)
    (hv : LiteralBody f (b.value.filling e?)) (hs : LiteralBody f s) :
    LiteralBody f (Bindings.fillOne e? s b) := by
  unfold Bindings.fillOne
  split
  · exact hs
  · exact replace hk hv s.length (Nat.le_refl _) hs

/-- **Filling stays in the literal.** Whatever values are filled into a body, it remains one. -/
theorem fill {e? : Option (Text → Text)} : ∀ {es : List Binding} {s : Text},
    (∀ b ∈ es, isWord b.key = true ∧ LiteralBody f (b.value.filling e?)) → LiteralBody f s →
    LiteralBody f (Bindings.fillAll e? es s)
  | [], _, _, hs => hs
  | b :: _, _, h, hs => by
    obtain ⟨hk, hv⟩ := h b List.mem_cons_self
    rw [Bindings.fillAll_cons]
    exact fill (fun b' hb' => h b' (List.mem_cons_of_mem _ hb')) (fillOne hk hv hs)

end LiteralBody

/-! ## The text outside of literals -/

namespace Flavor

/-- What is left of a text when the bodies of its string literals are taken out. The quotes stay;
`inside` tells whether the text begins in a literal. -/
def outside (f : Flavor) : (inside : Bool) → Text → Text
  | _, [] => []
  | false, c :: s => c :: outside f (c == '\'') s
  | true, '\'' :: '\'' :: s => outside f true s
  | true, '\'' :: s => '\'' :: outside f false s
  | true, '\\' :: c :: s => if f = .mysql then outside f true s else outside f true (c :: s)
  | true, _ :: s => outside f true s

theorem outside_append {f : Flavor} : ∀ {s : Text}, '\'' ∉ s → ∀ t : Text,
    f.outside false (s ++ t) = s ++ f.outside false t
  | [], _, _ => rfl
  | c :: s, h, t => by
    have hc : (c == '\'') = false := by
      rw [beq_eq_false_iff_ne]
      exact fun e => h (by simp [e])
    rw [List.cons_append, outside, hc, outside_append fun hs => h (List.mem_cons_of_mem _ hs)]
    rfl

theorem outside_plain {f : Flavor} {c : Char} (hc : f.isPlain c = true) (s : Text) :
    f.outside true (c :: s) = f.outside true s := by
  have hq := ne_quote_of_isPlain hc
  by_cases hb : c = '\\'
  · subst hb
    cases s with
    | nil => rfl
    | cons x s =>
      have hf : f ≠ .mysql := by rintro rfl; cases hc
      rw [outside, if_neg hf]
  · conv_lhs => unfold outside
    split <;> simp_all

theorem outside_pair {f : Flavor} {a b : Char} (hp : (a, b) ∈ f.pairs) (s : Text) :
    f.outside true (a :: b :: s) = f.outside true s := by
  cases f with
  | mysql =>
    obtain ⟨x, -, e⟩ := List.mem_map.mp hp
    cases e
    rw [outside, if_pos rfl]
  | postgres | sqlite =>
    cases List.mem_singleton.mp hp
    rfl

theorem outside_body {f : Flavor} {e : Text} (he : LiteralBody f e) (s : Text) :
    f.outside true (e ++ s) = f.outside true s := by
  induction he with
  | nil => rfl
  | plain hc _ ih => rw [List.cons_append, outside_plain hc, ih]
  | pair hp _ ih => rw [List.cons_append, List.cons_append, outside_pair hp, ih]

/-- A literal closes at the quote behind its body, unless another quote follows. -/
theorem outside_literal {f : Flavor} {e : Text} (he : LiteralBody f e) {c : Char} (hc : c ≠ '\'')
    (s : Text) : f.outside false ('\'' :: e ++ '\'' :: c :: s) =
      '\'' :: '\'' :: f.outside false (c :: s) := by
  have hclose : f.outside true ('\'' :: c :: s) = '\'' :: f.outside false (c :: s) := by
    simp [outside, hc]
  rw [List.cons_append, outside, beq_self_eq_true, outside_body he, hclose]

end Flavor

end SqlForge
