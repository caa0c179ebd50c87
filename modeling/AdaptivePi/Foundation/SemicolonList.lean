import AdaptivePi.Foundation.Lines
import Mathlib.Algebra.Ring.Nat

/-!
Lists in a text, as CMake has them: the elements are joined by semicolons. A
semicolon separates elements unless it follows a backslash, which is then
dropped, or an unequal number of `[` and `]`. Elements that are joined as they
are come back only under conditions on their brackets, their backslashes and
their own semicolons; elements that are stored with escaped semicolons need no
condition on these.
-/

namespace AdaptivePi.Foundation.SemicolonList

/-- How many more `[` than `]`. -/
def nesting (text : Text) : Int := text.count '[' - text.count ']'

def prepend (front : Text) : List Text → List Text
  | [] => [front]
  | element :: elements => (front ++ element) :: elements

/-- The elements of a text that comes after `depth` more `[` than `]`. -/
def split : Int → Text → List Text
  | _, [] => [[]]
  | depth, '\\' :: ';' :: rest => prepend [';'] (split depth rest)
  | depth, ';' :: rest =>
      if depth = 0 then [] :: split depth rest else prepend [';'] (split depth rest)
  | depth, char :: rest => prepend [char] (split (depth + nesting [char]) rest)

def join (elements : List Text) : Text := List.intercalate [';'] elements

def escape (element : Text) : Text :=
  element.flatMap fun char => if char = ';' then ['\\', ';'] else [char]

/-- The text of a list whose semicolons are escaped. -/
def store (elements : List Text) : Text := join (elements.map escape)

/-- The arguments that an unquoted variable expands to. -/
def expand (text : Text) : List Text := (split 0 text).filter (· ≠ [])

/-- The elements that `foreach(... IN LISTS ...)` visits. -/
def forEach (text : Text) : List Text := if text = [] then [] else split 0 text

/-- How long a text the elements are joined to, with one more separator. -/
def weight (elements : List Text) : Nat := (elements.map fun element => element.length + 1).sum

/-- Every semicolon stands after an unequal number of brackets. -/
def Uncut (depth : Int) (element : Text) : Prop :=
  ∀ before after, element = before ++ ';' :: after → depth + nesting before ≠ 0

/-- Every element but the last has equal brackets and no backslash at its end. -/
def Separable (elements : List Text) : Prop :=
  ∀ element ∈ elements.dropLast, nesting element = 0 ∧ element.getLast? ≠ some '\\'

/-- `foreach` visits these elements if they have been stored. -/
def Kept (elements : List Text) : Prop := elements ≠ [[]] ∧ Separable elements

instance (elements : List Text) : Decidable (Separable elements) :=
  inferInstanceAs (Decidable (∀ element ∈ elements.dropLast, _))

instance (elements : List Text) : Decidable (Kept elements) :=
  inferInstanceAs (Decidable (_ ∧ _))

section Brackets

@[simp] theorem nesting_nil : nesting [] = 0 := rfl

theorem nesting_append (left right : Text) :
    nesting (left ++ right) = nesting left + nesting right := by
  simp only [nesting, List.count_append]
  omega

theorem nesting_cons (char : Char) (text : Text) :
    nesting (char :: text) = nesting [char] + nesting text :=
  nesting_append [char] text

theorem Uncut.tail {depth : Int} {char : Char} {element : Text} (h : Uncut depth (char :: element)) :
    Uncut (depth + nesting [char]) element := by
  rintro before after rfl
  have hcons := h (char :: before) after rfl
  rw [nesting_cons] at hcons
  omega

theorem Uncut.cons {depth : Int} {char : Char} {element : Text} (hchar : char ≠ ';' ∨ depth ≠ 0)
    (h : Uncut (depth + nesting [char]) element) : Uncut depth (char :: element) := by
  intro before after heq
  cases before with
  | nil =>
      obtain ⟨rfl, -⟩ := List.cons.inj heq
      simpa using hchar
  | cons first before =>
      obtain ⟨rfl, hrest⟩ := List.cons.inj heq
      have htail := h before after hrest
      rw [nesting_cons]
      omega

end Brackets

section Prepend

theorem prepend_prepend (front next : Text) (elements : List Text) :
    prepend front (prepend next elements) = prepend (front ++ next) elements := by
  cases elements with
  | nil => rfl
  | cons element elements => simp [prepend]

theorem length_prepend {elements : List Text} (front : Text) (h : elements ≠ []) :
    (prepend front elements).length = elements.length := by
  cases elements with
  | nil => exact absurd rfl h
  | cons element elements => rfl

theorem weight_prepend {elements : List Text} (front : Text) (h : elements ≠ []) :
    weight (prepend front elements) = front.length + weight elements := by
  cases elements with
  | nil => exact absurd rfl h
  | cons element elements =>
      simp only [prepend, weight, List.map_cons, List.sum_cons, List.length_append]
      omega

theorem prepend_eq_cons {front first : Text} {elements others : List Text} (hne : elements ≠ [])
    (h : prepend front elements = first :: others) :
    ∃ element, elements = element :: others ∧ first = front ++ element := by
  cases elements with
  | nil => exact absurd rfl hne
  | cons element elements =>
      obtain ⟨hfirst, rfl⟩ := List.cons.inj h
      exact ⟨element, rfl, hfirst.symm⟩

theorem weight_cons (element : Text) (elements : List Text) :
    weight (element :: elements) = element.length + 1 + weight elements := by
  simp [weight]

theorem weight_append (left right : List Text) :
    weight (left ++ right) = weight left + weight right := by
  simp [weight]

theorem weight_map_append (front : Text) (elements : List Text) :
    weight (elements.map (front ++ ·)) = front.length * elements.length + weight elements := by
  induction elements with
  | nil => simp [weight]
  | cons element elements ih =>
      rw [List.map_cons, weight_cons, weight_cons, ih, List.length_append, List.length_cons,
        Nat.mul_succ]
      omega

theorem weight_filter_le (accepts : Text → Bool) (elements : List Text) :
    weight (elements.filter accepts) ≤ weight elements := by
  induction elements with
  | nil => simp
  | cons element elements ih =>
      cases haccepts : accepts element with
      | true =>
          rw [List.filter_cons_of_pos haccepts, weight_cons, weight_cons]
          omega
      | false =>
          rw [List.filter_cons_of_neg (by simp [haccepts]), weight_cons]
          omega

/-- A filter that drops no weight drops nothing. -/
theorem filter_eq_self_of_weight {accepts : Text → Bool} {elements : List Text}
    (h : weight elements ≤ weight (elements.filter accepts)) :
    elements.filter accepts = elements := by
  induction elements with
  | nil => rfl
  | cons element elements ih =>
      cases haccepts : accepts element with
      | true =>
          rw [List.filter_cons_of_pos haccepts] at h ⊢
          rw [weight_cons, weight_cons] at h
          rw [ih (by omega)]
      | false =>
          rw [List.filter_cons_of_neg (by simp [haccepts]), weight_cons] at h
          have hrest := weight_filter_le accepts elements
          omega

end Prepend

section Split

theorem split_escape (depth : Int) (rest : Text) :
    split depth ('\\' :: ';' :: rest) = prepend [';'] (split depth rest) := by
  rw [split]

/-- A semicolon separates where brackets are balanced. -/
theorem split_separator (rest : Text) : split 0 (';' :: rest) = [] :: split 0 rest := by
  rw [split, if_pos rfl]

/-- A character that neither separates nor escapes belongs to the element. -/
theorem split_cons {depth : Int} {char : Char} {rest : Text} (hchar : char ≠ ';' ∨ depth ≠ 0)
    (hescape : char = '\\' → rest.head? ≠ some ';') :
    split depth (char :: rest) = prepend [char] (split (depth + nesting [char]) rest) := by
  by_cases hsemicolon : char = ';'
  · subst hsemicolon
    have hdepth : depth ≠ 0 := by simpa using hchar
    rw [split, if_neg hdepth, show nesting [';'] = 0 from rfl, Int.add_zero]
  · refine split.eq_4 depth char rest ?_ hsemicolon
    rintro other rfl rfl
    exact hescape rfl rfl

/-- A text ends, or starts with an escaped semicolon, with a separator, or with
a character of the element. -/
@[elab_as_elim]
theorem split_induction {motive : Int → Text → Prop} (nil : ∀ depth, motive depth [])
    (escape : ∀ depth rest, motive depth rest → motive depth ('\\' :: ';' :: rest))
    (separator : ∀ rest, motive 0 rest → motive 0 (';' :: rest))
    (keep : ∀ depth char rest, (char ≠ ';' ∨ depth ≠ 0) → (char = '\\' → rest.head? ≠ some ';') →
      motive (depth + nesting [char]) rest → motive depth (char :: rest))
    (depth : Int) (text : Text) : motive depth text := by
  induction depth, text using split.induct with
  | case1 depth => exact nil depth
  | case2 depth rest ih => exact escape depth rest ih
  | case3 rest ih => exact separator rest ih
  | case4 depth rest hdepth ih =>
      refine keep depth ';' rest (.inr hdepth) (fun heq => absurd heq (by decide)) ?_
      rwa [show nesting [';'] = 0 from rfl, Int.add_zero]
  | case5 depth char rest hescape hchar ih =>
      refine keep depth char rest (.inl hchar) ?_ ih
      rintro rfl hhead
      obtain ⟨others, rfl⟩ := List.head?_eq_some_iff.mp hhead
      exact hescape others rfl rfl

theorem split_ne_nil (depth : Int) (text : Text) : split depth text ≠ [] := by
  have hprepend : ∀ front elements, prepend front elements ≠ [] := by
    intro front elements
    cases elements <;> simp [prepend]
  cases depth, text using split_induction with
  | nil => simp [split]
  | escape depth rest ih =>
      rw [split_escape]
      exact hprepend _ _
  | separator rest ih => simp [split_separator]
  | keep depth char rest hchar hescape ih =>
      rw [split_cons hchar hescape]
      exact hprepend _ _

/-- A text without separators belongs to the first element. -/
theorem split_append {element tail : Text} {depth : Int} (huncut : Uncut depth element)
    (hescape : ¬['\\', ';'] <:+: element)
    (hend : element.getLast? = some '\\' → tail.head? ≠ some ';') :
    split depth (element ++ tail) = prepend element (split (depth + nesting element) tail) := by
  induction element generalizing depth with
  | nil =>
      obtain ⟨first, others, hsplit⟩ := List.exists_cons_of_ne_nil (split_ne_nil depth tail)
      simp [hsplit, prepend]
  | cons char rest ih =>
      have hchar : char ≠ ';' ∨ depth ≠ 0 := by
        by_cases hsemicolon : char = ';'
        · subst hsemicolon
          exact .inr (by simpa using huncut [] rest rfl)
        · exact .inl hsemicolon
      have hnext : char = '\\' → (rest ++ tail).head? ≠ some ';' := by
        rintro rfl
        cases rest with
        | nil => exact hend rfl
        | cons next rest =>
            intro hhead
            obtain rfl : next = ';' := by simpa using hhead
            exact hescape ⟨[], rest, rfl⟩
      have hend' : rest.getLast? = some '\\' → tail.head? ≠ some ';' := by
        intro hlast
        refine hend ?_
        rw [List.getLast?_cons, hlast]
        rfl
      have hescape' : ¬['\\', ';'] <:+: rest :=
        fun hinside => hescape (hinside.trans (List.suffix_cons char rest).isInfix)
      rw [List.cons_append, split_cons hchar hnext, ih huncut.tail hescape' hend', prepend_prepend,
        nesting_cons char rest, Int.add_assoc]
      rfl

/-- Splitting does not add to a text. -/
theorem weight_split_le (depth : Int) (text : Text) :
    weight (split depth text) ≤ text.length + 1 := by
  induction depth, text using split_induction with
  | nil depth => simp [split, weight]
  | escape depth rest ih =>
      rw [split_escape, weight_prepend _ (split_ne_nil _ _)]
      simp only [List.length_cons, List.length_nil]
      omega
  | separator rest ih =>
      rw [split_separator, weight_cons]
      simp only [List.length_cons, List.length_nil]
      omega
  | keep depth char rest hchar hescape ih =>
      rw [split_cons hchar hescape, weight_prepend _ (split_ne_nil _ _)]
      simp only [List.length_cons, List.length_nil]
      omega

/-- A text that loses nothing when it is split has no escapes. -/
theorem not_escape_of_weight {depth : Int} {text : Text}
    (h : weight (split depth text) = text.length + 1) : ¬['\\', ';'] <:+: text := by
  induction depth, text using split_induction with
  | nil depth => simp
  | escape depth rest ih =>
      have hle := weight_split_le depth rest
      rw [split_escape, weight_prepend _ (split_ne_nil _ _)] at h
      simp only [List.length_cons, List.length_nil] at h
      omega
  | separator rest ih =>
      rw [split_separator, weight_cons] at h
      simp only [List.length_cons, List.length_nil] at h
      rw [List.infix_cons_iff]
      rintro (hstart | hinside)
      · simp at hstart
      · exact ih (by omega) hinside
  | keep depth char rest hchar hescape ih =>
      rw [split_cons hchar hescape, weight_prepend _ (split_ne_nil _ _)] at h
      simp only [List.length_cons, List.length_nil] at h
      rw [List.infix_cons_iff]
      rintro (⟨after, hstart⟩ | hinside)
      · obtain ⟨rfl, rfl⟩ := List.cons.inj hstart
        exact hescape rfl rfl
      · exact ih (by omega) hinside

/-- Without escapes, the first element is what comes before the first separator. -/
theorem split_eq_cons {depth : Int} {text first : Text} {others : List Text}
    (hescape : ¬['\\', ';'] <:+: text) (h : split depth text = first :: others) :
    Uncut depth first ∧ ((others = [] ∧ text = first) ∨
      ∃ rest, text = first ++ ';' :: rest ∧ depth + nesting first = 0 ∧ split 0 rest = others) := by
  induction depth, text using split_induction generalizing first with
  | nil depth =>
      obtain ⟨rfl, rfl⟩ := List.cons.inj h
      refine ⟨fun before after heq => ?_, .inl ⟨rfl, rfl⟩⟩
      simp at heq
  | escape depth rest ih => exact absurd ⟨[], rest, rfl⟩ hescape
  | separator rest ih =>
      rw [split_separator] at h
      obtain ⟨rfl, hothers⟩ := List.cons.inj h
      refine ⟨fun before after heq => ?_, .inr ⟨rest, rfl, rfl, hothers⟩⟩
      simp at heq
  | keep depth char rest hchar hnext ih =>
      rw [split_cons hchar hnext] at h
      obtain ⟨element, hsplit, rfl⟩ := prepend_eq_cons (split_ne_nil _ _) h
      have hrest : ¬['\\', ';'] <:+: rest :=
        fun hinside => hescape (hinside.trans (List.suffix_cons char rest).isInfix)
      obtain ⟨huncut, htext⟩ := ih hrest hsplit
      refine ⟨huncut.cons hchar, htext.imp ?_ ?_⟩
      · rintro ⟨hothers, rfl⟩
        exact ⟨hothers, rfl⟩
      · rintro ⟨after, rfl, hnesting, hafter⟩
        refine ⟨after, rfl, ?_, hafter⟩
        rw [List.singleton_append, nesting_cons]
        omega

theorem weight_expand_le (text : Text) : weight (expand text) ≤ text.length + 1 :=
  Nat.le_trans (weight_filter_le _ _) (weight_split_le 0 text)

/-- An expansion that loses nothing is a split of a text without escapes. -/
theorem expand_lossless {text : Text} (h : text.length + 1 ≤ weight (expand text)) :
    ¬['\\', ';'] <:+: text ∧ split 0 text = expand text := by
  have hsplit := weight_split_le 0 text
  have hfilter := weight_filter_le (fun element => decide (element ≠ [])) (split 0 text)
  have hexpand : weight (expand text) =
      weight ((split 0 text).filter fun element => decide (element ≠ [])) := rfl
  refine ⟨@not_escape_of_weight 0 text (by omega), ?_⟩
  exact (filter_eq_self_of_weight (by omega)).symm

end Split

section Join

theorem join_cons_cons (first second : Text) (others : List Text) :
    join (first :: second :: others) = first ++ ';' :: join (second :: others) := by
  simp [join, List.intercalate]

theorem join_singleton (element : Text) : join [element] = element := by
  simp [join, List.intercalate]

theorem head?_join {first : Text} {others : List Text} {char : Char}
    (h : first.head? = some char) : (join (first :: others)).head? = some char := by
  cases others with
  | nil => rwa [join_singleton]
  | cons second others =>
      rw [join_cons_cons, List.head?_append, h]
      rfl

theorem weight_eq_length_join {elements : List Text} (h : elements ≠ []) :
    weight elements = (join elements).length + 1 := by
  induction elements with
  | nil => exact absurd rfl h
  | cons first others ih =>
      cases others with
      | nil => simp [weight, join_singleton]
      | cons second others =>
          rw [weight_cons, ih (by simp), join_cons_cons]
          simp only [List.length_append, List.length_cons]
          omega

theorem join_append {left right : List Text} (hleft : left ≠ []) (hright : right ≠ []) :
    join (left ++ right) = join left ++ ';' :: join right := by
  obtain ⟨second, others, rfl⟩ := List.exists_cons_of_ne_nil hright
  induction left with
  | nil => exact absurd rfl hleft
  | cons first left ih =>
      cases left with
      | nil => rw [List.singleton_append, join_cons_cons, join_singleton]
      | cons next left =>
          rw [List.cons_append, List.cons_append, join_cons_cons, ← List.cons_append,
            ih (by simp), join_cons_cons, List.append_assoc, List.cons_append]

/-- What has no semicolon is in a joined text only if it is in an element. -/
theorem infix_join_iff {pattern : Text} (hpattern : ';' ∉ pattern) {elements : List Text}
    (hne : elements ≠ []) :
    pattern <:+: join elements ↔ ∃ element ∈ elements, pattern <:+: element := by
  induction elements with
  | nil => exact absurd rfl hne
  | cons first others ih =>
      cases others with
      | nil => simp [join_singleton]
      | cons second others =>
          rw [join_cons_cons, infix_append_cons hpattern, ih (by simp)]
          simp

theorem Separable.tail {first second : Text} {others : List Text}
    (h : Separable (first :: second :: others)) : Separable (second :: others) :=
  fun element hmem => h element (List.mem_cons_of_mem first hmem)

theorem Separable.head {first second : Text} {others : List Text}
    (h : Separable (first :: second :: others)) : nesting first = 0 ∧ first.getLast? ≠ some '\\' :=
  h first (by simp)

theorem Separable.cons {first second : Text} {others : List Text}
    (hfirst : nesting first = 0 ∧ first.getLast? ≠ some '\\') (h : Separable (second :: others)) :
    Separable (first :: second :: others) := by
  intro element hmem
  rw [List.dropLast_cons_cons] at hmem
  rcases List.mem_cons.mp hmem with rfl | hmem
  · exact hfirst
  · exact h element hmem

theorem Separable.of_append {left middle right : List Text}
    (h : Separable (left ++ (middle ++ right))) : Separable middle := by
  intro element hmem
  have hmiddle : element ∈ (middle ++ right).dropLast := by
    by_cases hright : right = []
    · rwa [hright, List.append_nil]
    · rw [List.dropLast_append_of_ne_nil hright]
      exact List.mem_append_left _ (List.dropLast_subset _ hmem)
  refine h element ?_
  rw [List.dropLast_append_of_ne_nil (List.ne_nil_of_mem (List.dropLast_subset _ hmiddle))]
  exact List.mem_append_right _ hmiddle

/-- Elements that are joined as they are come back if their own semicolons stay
inside brackets, and none of them opens a bracket or escapes for the next. -/
theorem split_join {elements : List Text} (hne : elements ≠ []) (hseparable : Separable elements)
    (huncut : ∀ element ∈ elements, Uncut 0 element)
    (hescape : ∀ element ∈ elements, ¬['\\', ';'] <:+: element) :
    split 0 (join elements) = elements := by
  induction elements with
  | nil => exact absurd rfl hne
  | cons first others ih =>
      have hfirst := huncut first List.mem_cons_self
      have hfirst' := hescape first List.mem_cons_self
      cases others with
      | nil =>
          rw [join_singleton, ← List.append_nil first, split_append hfirst hfirst' (by simp)]
          simp [split, prepend]
      | cons second others =>
          obtain ⟨hnesting, hlast⟩ := hseparable.head
          have hothers := ih (by simp) hseparable.tail
            (fun element hmem => huncut element (List.mem_cons_of_mem _ hmem))
            (fun element hmem => hescape element (List.mem_cons_of_mem _ hmem))
          rw [join_cons_cons, split_append hfirst hfirst' (fun heq => absurd heq hlast), hnesting,
            Int.add_zero, split_separator, hothers]
          simp [prepend]

/-- The converse for a text that loses nothing. -/
theorem intact_of_split_join {elements : List Text} (hescape : ¬['\\', ';'] <:+: join elements)
    (h : split 0 (join elements) = elements) :
    Separable elements ∧ ∀ element ∈ elements,
      Uncut 0 element ∧ ¬['\\', ';'] <:+: element := by
  induction elements with
  | nil => exact absurd h (split_ne_nil _ _)
  | cons first others ih =>
      obtain ⟨huncut, hcases⟩ := split_eq_cons hescape h
      cases others with
      | nil =>
          rw [join_singleton] at hescape
          refine ⟨fun element hmem => (nomatch hmem), fun element hmem => ?_⟩
          rw [List.mem_singleton.mp hmem]
          exact ⟨huncut, hescape⟩
      | cons second others =>
          rw [join_cons_cons] at hescape hcases
          rcases hcases with ⟨hnil, -⟩ | ⟨rest, htext, hnesting, hsplit⟩
          · cases hnil
          · obtain ⟨-, hrest⟩ := List.cons.inj (List.append_cancel_left htext)
            rw [← hrest] at hsplit
            have hinside : join (second :: others) <:+: first ++ ';' :: join (second :: others) :=
              ⟨first ++ [';'], [], by simp⟩
            obtain ⟨hseparable, hothers⟩ := ih (fun hmem => hescape (hmem.trans hinside)) hsplit
            have hlast : first.getLast? ≠ some '\\' := by
              intro hlast
              obtain ⟨before, rfl⟩ := List.getLast?_eq_some_iff.mp hlast
              exact hescape ⟨before, join (second :: others), by simp⟩
            refine ⟨hseparable.cons ⟨by omega, hlast⟩, fun element hmem => ?_⟩
            rcases List.mem_cons.mp hmem with rfl | hmem
            · exact ⟨huncut, fun hmem => hescape (hmem.trans (List.prefix_append _ _).isInfix)⟩
            · exact hothers element hmem

end Join

section Store

theorem split_escape_append {element tail : Text} (depth : Int)
    (hend : element.getLast? = some '\\' → tail.head? ≠ some ';') :
    split depth (escape element ++ tail) = prepend element (split (depth + nesting element) tail) := by
  induction element generalizing depth with
  | nil =>
      obtain ⟨first, others, hsplit⟩ := List.exists_cons_of_ne_nil (split_ne_nil depth tail)
      simp [escape, hsplit, prepend]
  | cons char rest ih =>
      have hend' : rest.getLast? = some '\\' → tail.head? ≠ some ';' := by
        intro hlast
        refine hend ?_
        rw [List.getLast?_cons, hlast]
        rfl
      by_cases hsemicolon : char = ';'
      · subst hsemicolon
        have hcons : escape (';' :: rest) ++ tail = '\\' :: ';' :: (escape rest ++ tail) := rfl
        rw [hcons, split_escape, ih depth hend', prepend_prepend, nesting_cons,
          show nesting [';'] = 0 from rfl, Int.zero_add]
        rfl
      · have hcons : escape (char :: rest) ++ tail = char :: (escape rest ++ tail) := by
          simp [escape, hsemicolon]
        have hnext : char = '\\' → (escape rest ++ tail).head? ≠ some ';' := by
          rintro rfl
          cases rest with
          | nil => exact hend rfl
          | cons next rest =>
              by_cases hnext : next = ';'
              · simp [escape, hnext]
              · simp [escape, hnext]
        rw [hcons, split_cons (.inl hsemicolon) hnext, ih _ hend', prepend_prepend,
          nesting_cons char rest, Int.add_assoc]
        rfl

theorem store_cons_cons (first second : Text) (others : List Text) :
    store (first :: second :: others) = escape first ++ ';' :: store (second :: others) :=
  join_cons_cons _ _ _

theorem split_store_singleton (depth : Int) (element : Text) :
    split depth (store [element]) = [element] := by
  have hstore : store [element] = escape element ++ [] := by
    rw [List.append_nil]
    exact join_singleton _
  rw [hstore, split_escape_append depth (by simp)]
  simp [split, prepend]

/-- Stored elements come back if none opens a bracket or escapes for the next. -/
theorem split_store {elements : List Text} (hne : elements ≠ []) (h : Separable elements) :
    split 0 (store elements) = elements := by
  induction elements with
  | nil => exact absurd rfl hne
  | cons first others ih =>
      cases others with
      | nil => exact split_store_singleton 0 first
      | cons second others =>
          obtain ⟨hnesting, hlast⟩ := h.head
          rw [store_cons_cons, split_escape_append 0 (fun heq => absurd heq hlast), hnesting,
            Int.add_zero, split_separator, ih (by simp) h.tail]
          simp [prepend]

/-- A stored element is joined with the next one if it opens a bracket or ends
with a backslash. -/
theorem split_store_merge {depth : Int} {first second : Text} {others : List Text}
    (h : depth + nesting first ≠ 0 ∨ first.getLast? = some '\\') :
    ∃ front depth', front.length ≤ first.length + 1 ∧
      split depth (store (first :: second :: others)) =
        prepend front (split depth' (store (second :: others))) := by
  rw [store_cons_cons]
  by_cases hlast : first.getLast? = some '\\'
  · obtain ⟨before, rfl⟩ := List.getLast?_eq_some_iff.mp hlast
    have hescape : escape (before ++ ['\\']) ++ ';' :: store (second :: others) =
        escape before ++ '\\' :: ';' :: store (second :: others) := by
      simp [escape]
    refine ⟨before ++ [';'], depth + nesting before, by simp, ?_⟩
    rw [hescape, split_escape_append depth (by simp), split_escape, prepend_prepend]
  · have hdepth := h.resolve_right hlast
    refine ⟨first ++ [';'], depth + nesting first + nesting [';'], by simp, ?_⟩
    rw [split_escape_append depth (fun heq => absurd heq hlast),
      split_cons (.inr hdepth) (by simp), prepend_prepend]

/-- Stored elements come back as no more than they were. -/
theorem split_store_le (depth : Int) {elements : List Text} (hne : elements ≠ []) :
    (split depth (store elements)).length ≤ elements.length ∧
      weight (split depth (store elements)) ≤ weight elements := by
  induction elements generalizing depth with
  | nil => exact absurd rfl hne
  | cons first others ih =>
      cases others with
      | nil => simp [split_store_singleton]
      | cons second others =>
          by_cases hmerge : depth + nesting first ≠ 0 ∨ first.getLast? = some '\\'
          · obtain ⟨front, depth', hfront, hsplit⟩ :=
              @split_store_merge _ _ second others hmerge
            obtain ⟨hlength, hweight⟩ := ih depth' (by simp)
            rw [hsplit, length_prepend _ (split_ne_nil _ _), weight_prepend _ (split_ne_nil _ _),
              weight_cons first]
            simp only [List.length_cons] at hlength ⊢
            omega
          · obtain ⟨hnesting, hlast⟩ := not_or.mp hmerge
            obtain ⟨hlength, hweight⟩ := ih 0 (by simp)
            rw [store_cons_cons, split_escape_append depth (fun heq => absurd heq hlast),
              not_not.mp hnesting, split_separator, weight_cons first]
            simp only [prepend, List.append_nil, weight_cons, List.length_cons] at hlength hweight ⊢
            omega

/-- Stored elements of which none is lost were separable. -/
theorem separable_of_length {elements : List Text} (hne : elements ≠ [])
    (h : (split 0 (store elements)).length = elements.length) : Separable elements := by
  induction elements with
  | nil => exact absurd rfl hne
  | cons first others ih =>
      cases others with
      | nil => exact fun element hmem => nomatch hmem
      | cons second others =>
          by_cases hmerge : 0 + nesting first ≠ 0 ∨ first.getLast? = some '\\'
          · obtain ⟨front, depth', -, hsplit⟩ :=
              @split_store_merge _ _ second others hmerge
            obtain ⟨hlength, -⟩ := split_store_le depth' (List.cons_ne_nil second others)
            rw [hsplit, length_prepend _ (split_ne_nil _ _), List.length_cons] at h
            omega
          · obtain ⟨hnesting, hlast⟩ := not_or.mp hmerge
            rw [store_cons_cons, split_escape_append 0 (fun heq => absurd heq hlast),
              not_not.mp hnesting, split_separator] at h
            refine (ih (by simp) ?_).cons ⟨by simpa using hnesting, hlast⟩
            simpa [prepend] using h

end Store

section ForEach

theorem expand_eq_filter (text : Text) : expand text = (forEach text).filter (· ≠ []) := by
  by_cases hempty : text = []
  · simp [expand, forEach, hempty, split]
  · simp [expand, forEach, hempty]

theorem store_eq_nil {elements : List Text} :
    store elements = [] ↔ elements = [] ∨ elements = [[]] := by
  cases elements with
  | nil => simp [store, join]
  | cons first others =>
      cases others with
      | nil =>
          have hstore : store [first] = escape first := join_singleton _
          rw [hstore]
          cases first with
          | nil => simp [escape]
          | cons char rest => by_cases hsemicolon : char = ';' <;> simp [escape, hsemicolon]
      | cons second others => simp [store_cons_cons]

/-- Lists that are kept are visited as they were stored. -/
theorem forEach_store {elements : List Text} (h : Kept elements) :
    forEach (store elements) = elements := by
  unfold forEach
  by_cases hne : elements = []
  · rw [if_pos (store_eq_nil.mpr (.inl hne)), hne]
  · rw [if_neg (fun hnil => (store_eq_nil.mp hnil).elim hne h.1), split_store hne h.2]

/-- Otherwise there are fewer elements. -/
theorem forEach_store_le (elements : List Text) :
    (forEach (store elements)).length ≤ elements.length ∧
      weight (forEach (store elements)) ≤ weight elements := by
  unfold forEach
  by_cases hempty : store elements = []
  · simp [hempty, weight]
  · rw [if_neg hempty]
    exact split_store_le 0 fun hne => hempty (store_eq_nil.mpr (.inl hne))

/-- A list of which no element is lost is kept. -/
theorem kept_of_length {elements : List Text}
    (h : (forEach (store elements)).length = elements.length) : Kept elements := by
  unfold forEach at h
  by_cases hempty : store elements = []
  · rw [if_pos hempty] at h
    obtain rfl := List.length_eq_zero_iff.mp h.symm
    exact ⟨by simp, fun element hmem => nomatch hmem⟩
  · rw [if_neg hempty] at h
    refine ⟨fun heq => hempty (store_eq_nil.mpr (.inr heq)), separable_of_length ?_ h⟩
    exact fun hne => hempty (store_eq_nil.mpr (.inl hne))

end ForEach

end AdaptivePi.Foundation.SemicolonList
