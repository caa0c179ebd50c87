import AdaptivePi.Foundation.Lines
import AdaptivePi.Foundation.Reader
import Mathlib.Data.List.Infix

/-!
Bracket arguments, as CMake has them: a text between `[==[` and `]==]`, with a
number of equal signs. The closing bracket that is chosen for a text does not
occur in it, but it may occur where the text and the bracket meet.
-/

namespace AdaptivePi.Foundation.BracketArgument

open Reader

def opening (size : Nat) : Text := '[' :: (List.replicate size '=' ++ ['['])

def closingFront (size : Nat) : Text := ']' :: List.replicate size '='

def closing (size : Nat) : Text := closingFront size ++ [']']

/-- Add equal signs, at most `fuel`, until the closing bracket does not occur. -/
def growSize (text : Text) : Nat → Nat → Nat
  | 0, size => size
  | fuel + 1, size => if closing size <:+: text then growSize text fuel (size + 1) else size

/-- How many equal signs are chosen for a text. -/
def sizeFor (text : Text) : Nat := growSize text text.length 1

def quote (text : Text) : Text := opening (sizeFor text) ++ text ++ closing (sizeFor text)

/-- The text and the bracket that is chosen for it do not make up another one. -/
def Closes (text : Text) : Prop := ¬closingFront (sizeFor text) <:+ text

instance (text : Text) : Decidable (Closes text) := inferInstanceAs (Decidable ¬_)

/-- Line ends are read as newlines. -/
def unixLines : Text → Text
  | [] => []
  | '\r' :: '\n' :: rest => '\n' :: unixLines rest
  | char :: rest => char :: unixLines rest

/-- A newline right after the opening bracket is not part of the argument. -/
def dropNewline : Text → Text
  | '\n' :: rest => rest
  | text => text

def content (text : Text) : Text := dropNewline (unixLines text)

/-- The text before the first occurrence of a mark, and the text after it. -/
def untilMark (mark : Text) : Reader Char Text
  | [] => if mark = [] then some ([], []) else none
  | char :: rest =>
      if mark <+: char :: rest then some ([], (char :: rest).drop mark.length)
      else (untilMark mark rest).map fun result => (char :: result.1, result.2)

/-- Read a bracket argument. -/
def readBracket : Reader Char Text
  | '[' :: text =>
      let size := (text.takeWhile (· = '=')).length
      match text.drop size with
      | '[' :: rest => (untilMark (closing size) rest).map fun result => (content result.1, result.2)
      | _ => none
  | _ => none

def readRaw : Reader Char Text
  | '[' :: text =>
      let size := (text.takeWhile (· = '=')).length
      match text.drop size with
      | '[' :: rest => untilMark (closing size) rest
      | _ => none
  | _ => none

/-- The delimiter that is found is not in the text. -/
theorem not_closing_growSize {text : Text} {fuel size : Nat} (h : text.length ≤ fuel + size) :
    ¬closing (growSize text fuel size) <:+: text := by
  induction fuel generalizing size with
  | zero =>
      intro hinside
      have hlength := hinside.length_le
      simp only [growSize, closing, closingFront, List.length_append, List.length_cons,
        List.length_replicate, List.length_nil] at hlength
      omega
  | succ fuel ih =>
      rw [growSize]
      by_cases hinside : closing size <:+: text
      · rw [if_pos hinside]
        exact ih (by omega)
      · rwa [if_neg hinside]

/-- The bracket that is chosen does not occur in the text. -/
theorem not_closing_sizeFor (text : Text) : ¬closing (sizeFor text) <:+: text :=
  not_closing_growSize (by omega)

theorem le_growSize (text : Text) (fuel size : Nat) : size ≤ growSize text fuel size := by
  induction fuel generalizing size with
  | zero => simp [growSize]
  | succ fuel ih =>
      rw [growSize]
      by_cases hinside : closing size <:+: text
      · rw [if_pos hinside]
        exact Nat.le_of_succ_le (ih (size + 1))
      · simp [hinside]

/-- Each size that is passed over has a closing bracket inside the text. -/
theorem closing_of_lt_growSize {text : Text} {fuel size smaller : Nat} (hle : size ≤ smaller)
    (hlt : smaller < growSize text fuel size) : closing smaller <:+: text := by
  induction fuel generalizing size with
  | zero =>
      rw [growSize] at hlt
      omega
  | succ fuel ih =>
      rw [growSize] at hlt
      by_cases hinside : closing size <:+: text
      · rw [if_pos hinside] at hlt
        rcases Nat.eq_or_lt_of_le hle with rfl | hmore
        · exact hinside
        · exact ih hmore hlt
      · rw [if_neg hinside] at hlt
        omega

theorem one_le_sizeFor (text : Text) : 1 ≤ sizeFor text := le_growSize text text.length 1

/-- The chosen size is the first one whose closing bracket does not occur. -/
theorem sizeFor_eq {text : Text} {size : Nat} (hpos : 1 ≤ size)
    (hsmaller : ∀ smaller, 1 ≤ smaller → smaller < size → closing smaller <:+: text)
    (hnot : ¬closing size <:+: text) : sizeFor text = size := by
  rcases lt_trichotomy (sizeFor text) size with hless | heq | hmore
  · exact absurd (hsmaller _ (one_le_sizeFor text) hless) (not_closing_sizeFor text)
  · exact heq
  · exact absurd (closing_of_lt_growSize hpos hmore) hnot

/-- A text meets its bracket badly when it ends with a bracket and equal signs
whose closing bracket is the shortest one that does not occur in it. -/
theorem not_closes_iff (text : Text) :
    ¬Closes text ↔ ∃ size, 1 ≤ size ∧ closingFront size <:+ text ∧
      (∀ smaller, 1 ≤ smaller → smaller < size → closing smaller <:+: text) ∧
      ¬closing size <:+: text := by
  unfold Closes
  rw [not_not]
  constructor
  · intro hsuffix
    exact ⟨sizeFor text, one_le_sizeFor text, hsuffix,
      fun _ hpos hlt => closing_of_lt_growSize hpos hlt, not_closing_sizeFor text⟩
  · rintro ⟨size, hpos, hsuffix, hsmaller, hnot⟩
    rw [sizeFor_eq hpos hsmaller hnot]
    exact hsuffix

/-- A mark is found where it stands if it does not occur before. -/
theorem untilMark_append {front text : Text} {last : Char}
    (hfirst : ¬front ++ [last] <:+: text ++ front) (rest : Text) :
    untilMark (front ++ [last]) (text ++ (front ++ last :: rest)) = some (text, rest) := by
  induction text with
  | nil =>
      have hstart : front ++ [last] <+: front ++ last :: rest := ⟨rest, by simp⟩
      cases hcons : front ++ last :: rest with
      | nil => simp at hcons
      | cons char others =>
          rw [hcons] at hstart
          rw [List.nil_append, untilMark, if_pos hstart, ← hcons,
            show front ++ last :: rest = front ++ [last] ++ rest by simp, List.drop_left]
  | cons char text ih =>
      have hnot : ¬front ++ [last] <+: char :: (text ++ (front ++ last :: rest)) := by
        intro hstart
        have hlonger : (char :: text) ++ front <+: char :: (text ++ (front ++ last :: rest)) :=
          ⟨last :: rest, by simp⟩
        refine hfirst (List.prefix_of_prefix_length_le hstart hlonger ?_).isInfix
        simp only [List.length_append, List.length_cons, List.length_nil]
        omega
      have htail : ¬front ++ [last] <:+: text ++ front :=
        fun hinside => hfirst (hinside.trans (List.suffix_cons char _).isInfix)
      rw [List.cons_append, untilMark, if_neg hnot, ih htail]
      rfl

/-- A closing bracket that is made up by a text and the front of its bracket. -/
theorem closingFront_suffix {size : Nat} {text : Text} (htext : ¬closing size <:+: text)
    (h : closing size <:+: text ++ closingFront size) : closingFront size <:+ text := by
  obtain ⟨before, after, heq⟩ := h
  rw [List.append_assoc] at heq
  rcases List.append_eq_append_iff.mp heq with ⟨middle, rfl, hmiddle⟩ | ⟨middle, -, hmiddle⟩
  · rcases List.append_eq_append_iff.mp hmiddle with ⟨tail, rfl, -⟩ | ⟨tail, hclosing, htail⟩
    · exact absurd ⟨before, tail, by simp⟩ htext
    · cases tail with
      | nil =>
          rw [List.append_nil] at hclosing
          exact absurd ⟨before, [], by simp [hclosing]⟩ htext
      | cons first others =>
          obtain ⟨rfl, hothers⟩ := List.cons.inj htail
          -- Of the front of the bracket, only its first character can end the bracket.
          rcases List.eq_nil_or_concat others with rfl | ⟨init, last, rfl⟩
          · exact ⟨before, by rw [List.append_cancel_right hclosing]⟩
          · have hlast : last = '=' := by
              have hmem : last ∈ List.replicate size '=' := by simp [hothers]
              exact List.eq_of_mem_replicate hmem
            have hend : closing size = (middle ++ ']' :: init) ++ ['='] := by
              rw [hclosing, hlast]
              simp
            exact absurd (List.append_inj' hend rfl).2 (by decide)
  · have hlength := congrArg List.length hmiddle
    simp only [closing, List.length_append, List.length_cons, List.length_nil] at hlength
    omega

/-- An argument ends where its closing bracket first occurs. -/
theorem readRaw_opening (size : Nat) (text : Text) :
    readRaw (opening size ++ text) = untilMark (closing size) text := by
  have hsize : ((List.replicate size '=' ++ '[' :: text).takeWhile (· = '=')).length = size := by
    rw [List.takeWhile_append_of_pos (by simp)]
    simp
  have hopening : opening size ++ text = '[' :: (List.replicate size '=' ++ '[' :: text) := by
    simp [opening]
  have hdrop : (List.replicate size '=' ++ '[' :: text).drop size = '[' :: text := by
    rw [List.drop_append_of_le_length (by simp)]
    simp
  rw [hopening, readRaw]
  simp only [hsize, hdrop]

/-- A bracket argument is the content of the text between its brackets. -/
theorem readBracket_eq_map (text : Text) :
    readBracket text = (readRaw text).map fun result => (content result.1, result.2) := by
  unfold readBracket readRaw
  split
  · dsimp only
    split
    · rfl
    · rfl
  · rfl

section Content

theorem length_unixLines_le (text : Text) : (unixLines text).length ≤ text.length := by
  induction text using unixLines.induct with
  | case1 => simp [unixLines]
  | case2 rest ih =>
      simp only [unixLines, List.length_cons]
      omega
  | case3 char rest hreturn ih =>
      rw [unixLines.eq_3 char rest hreturn]
      simp only [List.length_cons]
      omega

theorem unixLines_eq_self {text : Text} (h : ¬['\r', '\n'] <:+: text) : unixLines text = text := by
  induction text using unixLines.induct with
  | case1 => rfl
  | case2 rest ih => exact absurd ⟨[], rest, rfl⟩ h
  | case3 char rest hreturn ih =>
      rw [unixLines.eq_3 char rest hreturn,
        ih fun hinside => h (hinside.trans (List.suffix_cons char rest).isInfix)]

theorem not_infix_of_length_unixLines {text : Text} (h : (unixLines text).length = text.length) :
    ¬['\r', '\n'] <:+: text := by
  induction text using unixLines.induct with
  | case1 => simp
  | case2 rest ih =>
      have hle := length_unixLines_le rest
      simp only [unixLines, List.length_cons] at h
      omega
  | case3 char rest hreturn ih =>
      rw [unixLines.eq_3 char rest hreturn] at h
      simp only [List.length_cons] at h
      rw [List.infix_cons_iff]
      rintro (⟨after, hstart⟩ | hinside)
      · obtain ⟨rfl, rfl⟩ := List.cons.inj hstart
        exact hreturn after rfl rfl
      · exact ih (by omega) hinside

theorem content_of_slash {text : Text} (h : text.head? = some '/') : content text = unixLines text := by
  obtain ⟨rest, rfl⟩ := List.head?_eq_some_iff.mp h
  have hunix : unixLines ('/' :: rest) = '/' :: unixLines rest :=
    unixLines.eq_3 '/' rest fun _ heq => absurd heq (by decide)
  rw [content, hunix]
  rfl

end Content

/-- A quoted text is read back. -/
theorem readRaw_quote {text : Text} (h : Closes text) : Reads readRaw (quote text) text := by
  intro rest
  have hquote : quote text ++ rest =
      opening (sizeFor text) ++ (text ++ (closingFront (sizeFor text) ++ ']' :: rest)) := by
    simp [quote, closing]
  have hfirst := fun hinside => h (closingFront_suffix (not_closing_sizeFor text) hinside)
  rw [hquote, readRaw_opening, closing, untilMark_append hfirst]

/-- A text that ends like its bracket is cut short. -/
theorem readRaw_quote_cut {text : Text} (h : ¬Closes text) (rest : Text) :
    ∃ value others, readRaw (quote text ++ rest) = some (value, '=' :: others) := by
  obtain ⟨before, hbefore⟩ := not_not.mp h
  obtain ⟨size, hsize⟩ : ∃ size, sizeFor text = size + 1 :=
    ⟨sizeFor text - 1, by have hle := one_le_sizeFor text; omega⟩
  have hequals : closingFront (sizeFor text) ++ closing (sizeFor text) ++ rest =
      closingFront (sizeFor text) ++ ']' :: '=' :: (List.replicate size '=' ++ ']' :: rest) := by
    simp [hsize, closing, closingFront, List.replicate_succ]
  have hquote : quote text ++ rest = opening (sizeFor text) ++ (before ++
      (closingFront (sizeFor text) ++ ']' :: '=' :: (List.replicate size '=' ++ ']' :: rest))) := by
    rw [← hequals, quote]
    nth_rewrite 2 [← hbefore]
    simp only [List.append_assoc]
  have hfirst : ¬closingFront (sizeFor text) ++ [']'] <:+: before ++ closingFront (sizeFor text) := by
    rw [hbefore]
    exact not_closing_sizeFor text
  exact ⟨_, _, by rw [hquote, readRaw_opening, closing, untilMark_append hfirst]⟩

end AdaptivePi.Foundation.BracketArgument
