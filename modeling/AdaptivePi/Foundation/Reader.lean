import Mathlib.Logic.Basic

namespace AdaptivePi.Foundation

/-- A partial function from a text to a value and the unread rest. -/
abbrev Reader (α β : Type) := StateT (List α) Option β

namespace Reader

variable {α β γ : Type}

def Reads (read : Reader α β) (text : List α) (value : β) : Prop :=
  ∀ rest : List α, read (text ++ rest) = some (value, rest)

theorem Reads.pure (value : β) : Reads (Pure.pure value : Reader α β) [] value :=
  fun _ => rfl

theorem bind_of_some {read : Reader α β} {next : β → Reader α γ} {text rest : List α} {value : β}
    (hread : read text = some (value, rest)) : (read >>= next) text = next value rest := by
  change (read text).bind (fun result => next result.1 result.2) = _
  rw [hread]
  rfl

theorem bind_of_none {read : Reader α β} {next : β → Reader α γ} {text : List α}
    (hread : read text = none) : (read >>= next) text = none := by
  change (read text).bind (fun result => next result.1 result.2) = _
  rw [hread]
  rfl

/-- One reader after another reads one text after another. -/
theorem Reads.bind {read : Reader α β} {next : β → Reader α γ} {text text' : List α}
    {value : β} {value' : γ} (hread : Reads read text value)
    (hnext : Reads (next value) text' value') :
    Reads (read >>= next) (text ++ text') value' := by
  intro rest
  rw [List.append_assoc, bind_of_some (hread _)]
  exact hnext rest

theorem Reads.map {read : Reader α β} {text : List α} {value : β} (f : β → γ)
    (hread : Reads read text value) : Reads (f <$> read) text (f value) := by
  intro rest
  change (read (text ++ rest)).bind (fun result => some (f result.1, result.2)) = _
  rw [hread]
  rfl

def literal [DecidableEq α] (expected : List α) : Reader α Unit := fun text =>
  if text.take expected.length = expected then some ((), text.drop expected.length) else none

theorem reads_literal [DecidableEq α] (expected : List α) :
    Reads (literal expected) expected () := by
  intro rest
  simp [literal]

def symbols (count : Nat) : Reader α (List α) := fun text =>
  if count ≤ text.length then some (text.take count, text.drop count) else none

theorem reads_symbols {text : List α} {count : Nat} (hcount : text.length = count) :
    Reads (symbols count) text text := by
  intro rest
  subst hcount
  simp [symbols]

def before [DecidableEq α] (stop : α) : Reader α (List α) := fun text =>
  match text.dropWhile (· ≠ stop) with
  | [] => none
  | _ :: rest => some (text.takeWhile (· ≠ stop), rest)

theorem reads_before [DecidableEq α] {stop : α} {text : List α} (hstop : stop ∉ text) :
    Reads (before stop) (text ++ [stop]) text := by
  intro rest
  have hpos : ∀ c ∈ text, decide (c ≠ stop) = true := by
    intro c hc
    simpa using ne_of_mem_of_not_mem hc hstop
  unfold before
  rw [List.append_assoc, List.dropWhile_append_of_pos hpos, List.takeWhile_append_of_pos hpos]
  simp

def interpret (f : β → Option γ) (read : Reader α β) : Reader α γ := fun text =>
  match read text with
  | none => none
  | some (value, rest) => (f value).map (·, rest)

theorem Reads.interpret {read : Reader α β} {text : List α} {value : β} {f : β → Option γ}
    {value' : γ} (hread : Reads read text value) (hf : f value = some value') :
    Reads (Reader.interpret f read) text value' := by
  intro rest
  simp [Reader.interpret, hread rest, hf]

/-- Read again and again until the text is used up, at most `fuel` times. -/
def readMany (read : Reader α β) : Nat → List α → Option (List β)
  | _, [] => some []
  | 0, _ :: _ => none
  | fuel + 1, text@(_ :: _) => do
      let (value, rest) ← read text
      let values ← readMany read fuel rest
      pure (value :: values)

/-- A reader that takes at least one symbol is repeated no more often than
the text has symbols. -/
def readAll (read : Reader α β) (text : List α) : Option (List β) :=
  readMany read text.length text

/-- The texts of values are read as what each of them is read as. -/
theorem readMany_flatMap {read : Reader α β} {write : γ → List α} {result : γ → β}
    {values : List γ} (hread : ∀ value ∈ values, Reads read (write value) (result value))
    (hwrite : ∀ value ∈ values, write value ≠ []) {fuel : Nat}
    (hfuel : values.length ≤ fuel) :
    readMany read fuel (values.flatMap write) = some (values.map result) := by
  induction values generalizing fuel with
  | nil => cases fuel <;> rfl
  | cons value values ih =>
      obtain ⟨fuel, rfl⟩ : ∃ fuel', fuel = fuel' + 1 :=
        ⟨fuel - 1, by simp only [List.length_cons] at hfuel; omega⟩
      obtain ⟨c, text, hcons⟩ := List.exists_cons_of_ne_nil (hwrite value (by simp))
      have hvalue := hread value (by simp) (values.flatMap write)
      have hrest : readMany read fuel (values.flatMap write) = some (values.map result) :=
        ih (fun v hv => hread v (by simp [hv])) (fun v hv => hwrite v (by simp [hv]))
          (by simpa using hfuel)
      rw [List.flatMap_cons]
      rw [hcons] at hvalue ⊢
      simp only [List.cons_append] at hvalue ⊢
      simp [readMany, hvalue, hrest]

/-- Texts that are written one after the other are read one after the other. -/
theorem readAll_flatMap_map {read : Reader α β} {write : γ → List α} {result : γ → β}
    {values : List γ} (hread : ∀ value ∈ values, Reads read (write value) (result value))
    (hwrite : ∀ value ∈ values, write value ≠ []) :
    readAll read (values.flatMap write) = some (values.map result) := by
  refine readMany_flatMap hread hwrite ?_
  clear hread
  induction values with
  | nil => simp
  | cons value values ih =>
      have hpos := List.length_pos_iff.mpr (hwrite value (by simp))
      have hrest := ih (fun v hv => hwrite v (by simp [hv]))
      simp only [List.flatMap_cons, List.length_append, List.length_cons]
      omega

theorem readAll_flatMap {read : Reader α β} {write : β → List α} {values : List β}
    (hread : ∀ value ∈ values, Reads read (write value) value)
    (hwrite : ∀ value ∈ values, write value ≠ []) :
    readAll read (values.flatMap write) = some values := by
  rw [readAll_flatMap_map hread hwrite, List.map_id']

/-- One text that cannot be read spoils the whole. -/
theorem readMany_eq_none {read : Reader α β} {write : γ → List α} {result : γ → β}
    {values : List γ}
    (hread : ∀ value ∈ values, Reads read (write value) (result value) ∨
      ∀ rest, read (write value ++ rest) = none)
    (hwrite : ∀ value ∈ values, write value ≠ [])
    (hbad : ∃ value ∈ values, ∀ rest, read (write value ++ rest) = none) (fuel : Nat) :
    readMany read fuel (values.flatMap write) = none := by
  induction values generalizing fuel with
  | nil =>
      obtain ⟨value, hmem, -⟩ := hbad
      cases hmem
  | cons value values ih =>
      obtain ⟨c, text, hcons⟩ := List.exists_cons_of_ne_nil (hwrite value (by simp))
      have htext : (value :: values).flatMap write = c :: (text ++ values.flatMap write) := by
        rw [List.flatMap_cons, hcons, List.cons_append]
      rw [htext]
      cases fuel with
      | zero => rfl
      | succ fuel =>
          rw [readMany, ← List.cons_append, ← hcons]
          rcases hread value (by simp) with hvalue | hnone
          · obtain ⟨bad, hmem, hbad⟩ := hbad
            have hne : bad ≠ value := by
              rintro rfl
              have hnone := hbad []
              rw [hvalue] at hnone
              cases hnone
            have hrest := ih (fun v hv => hread v (by simp [hv])) (fun v hv => hwrite v (by simp [hv]))
              ⟨bad, (List.mem_cons.mp hmem).resolve_left hne, hbad⟩ fuel
            simp [hvalue (values.flatMap write), hrest]
          · simp [hnone]

end Reader

end AdaptivePi.Foundation
