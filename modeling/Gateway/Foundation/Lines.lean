import Gateway.Foundation.Text

/-! Python's white space, lines and words. -/
namespace Gateway

/-- `str.isspace` of one character. -/
def isWhite (c : ℕ) : Bool :=
  (9 ≤ c && c ≤ 13) || (28 ≤ c && c ≤ 32) || c = 0x85 || c = 0xA0 || c = 0x1680 ||
    (0x2000 ≤ c && c ≤ 0x200A) || c = 0x2028 || c = 0x2029 || c = 0x202F || c = 0x205F || c = 0x3000

/-- What `str.splitlines` splits at; a carriage return takes the line feed after it along. -/
def isLineBreak (c : ℕ) : Bool :=
  (10 ≤ c && c ≤ 13) || (28 ≤ c && c ≤ 30) || c = 0x85 || c = 0x2028 || c = 0x2029

/-- `str.strip`. -/
def strip (s : Str) : Str := ((s.dropWhile isWhite).reverse.dropWhile isWhite).reverse

/-- The rest of the lines; `line` is the one being read, from its end. -/
def splitLinesFrom (line : Str) : Str → List Str
  | [] => if line = [] then [] else [line.reverse]
  | 13 :: 10 :: s => line.reverse :: splitLinesFrom [] s
  | c :: s =>
    if isLineBreak c then line.reverse :: splitLinesFrom [] s else splitLinesFrom (c :: line) s

/-- `str.splitlines`. -/
def splitLines (s : Str) : List Str := splitLinesFrom [] s

def splitFrom (word : Str) : Str → List Str
  | [] => if word = [] then [] else [word.reverse]
  | c :: s =>
    if isWhite c then
      if word = [] then splitFrom [] s else word.reverse :: splitFrom [] s
    else splitFrom (c :: word) s

/-- `str.split` without a separator. -/
def split (s : Str) : List Str := splitFrom [] s

theorem splitFrom_ne_nil {word : Str} (h : word ≠ []) (s : Str) : splitFrom word s ≠ [] := by
  induction s generalizing word with
  | nil => simp [splitFrom, h]
  | cons c s ih =>
    rw [splitFrom]
    split_ifs
    · exact List.cons_ne_nil _ _
    · exact ih (List.cons_ne_nil _ _)

theorem strip_eq_nil_iff {s : Str} : strip s = [] ↔ ∀ c ∈ s, isWhite c = true := by
  unfold strip
  simp only [List.reverse_eq_nil_iff, List.dropWhile_eq_nil_iff, List.mem_reverse]
  constructor
  · intro h
    by_contra hn
    have hdrop : s.dropWhile isWhite ≠ [] := by
      rw [ne_eq, List.dropWhile_eq_nil_iff]
      exact hn
    have hhead := List.head_dropWhile_not isWhite hdrop
    rw [h _ (List.head_mem hdrop)] at hhead
    cases hhead
  · exact fun h c hc => h c ((List.dropWhile_suffix _).subset hc)

/-- A line has words exactly where something is left of it without its white space. -/
theorem split_eq_nil_iff {s : Str} : split s = [] ↔ strip s = [] := by
  rw [strip_eq_nil_iff, split]
  induction s with
  | nil => simp [splitFrom]
  | cons c s ih =>
    rw [splitFrom, List.forall_mem_cons]
    by_cases hc : isWhite c = true
    · simp [hc, ih]
    · simp [hc, splitFrom_ne_nil (List.cons_ne_nil c [])]

example : splitLines (str "num_ctx 8192\r\nstop  x\n") = [str "num_ctx 8192", str "stop  x"] := by
  decide

example : split (str " num_ctx\t8192 ") = [str "num_ctx", str "8192"] := by decide

end Gateway
