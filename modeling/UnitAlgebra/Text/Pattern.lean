/-
Patterns: what a text may start with, said by classes of characters,
sequence, choice and repetition. A text may start with a pattern in
several ways; `ways` lists all of them, the preferred one first.
A repetition takes as many characters as it can before it takes fewer,
the left side of a choice comes before the right one, and what may be
missing is tried before it is left out. Parts of a pattern can be
named, and a match tells what each named part has taken.

This is how a reader by backtracking would try them, written as a list
of outcomes instead of a control flow. The readers of this library do
not backtrack. They look at the next character and go on, and they are
compared with a pattern by three kinds of lemma:

- what one step of the pattern does to the list of ways, one lemma for
  each constructor (`first?_run`, `first?_choice`, `ways_seq_maybe`);
- where there is no choice to be made. If what comes next never goes on
  the way a repetition does, the longest run is the only one
  (`ways_seq_run`), and if the second of two patterns always has a way,
  the first decides (`first?_seq`);
- what stands behind a text. In front of a character that a pattern
  avoids, the text has the ways that it has at the end of everything
  (`ways_append`), so that pieces of a longer text can be matched one at
  a time.
-/
import Mathlib.Data.List.TakeWhile

namespace UnitAlgebra.Text

/-- What a text may start with; parts can have names in `γ`. -/
inductive Pattern (γ : Type) where
  /-- One character of a class. -/
  | char (p : Char → Bool)
  /-- One or more characters of a class. -/
  | run (p : Char → Bool)
  | seq (first second : Pattern γ)
  | choice (left right : Pattern γ)
  /-- What may be missing. -/
  | maybe (inner : Pattern γ)
  | named (name : γ) (inner : Pattern γ)

/-- One way in which a text starts with a pattern. -/
structure Match (γ : Type) where
  /-- What the named parts have taken. -/
  parts : List (γ × List Char)
  taken : List Char
  rest : List Char

namespace Match

variable {γ : Type}

/-- The match without names that takes a text off the front. -/
def upTo (text taken : List Char) : Match γ :=
  ⟨[], taken, text.drop taken.length⟩

/-- A match, and one of what it has left. -/
def append (m n : Match γ) : Match γ :=
  ⟨m.parts ++ n.parts, m.taken ++ n.taken, n.rest⟩

/-- A match under a name. -/
def rename (name : γ) (m : Match γ) : Match γ :=
  ⟨(name, m.taken) :: m.parts, m.taken, m.rest⟩

/-- A match in front of more text. -/
def extend (behind : List Char) (m : Match γ) : Match γ :=
  { m with rest := m.rest ++ behind }

/-- Matches are put together in any grouping. -/
theorem append_assoc (l m n : Match γ) :
    (l.append m).append n = l.append (m.append n) := by
  simp [append]

theorem upTo_nil_append (text : List Char) (m : Match γ) :
    (upTo text []).append m = m := rfl

/-- Two pieces taken one behind the other are one piece. -/
theorem upTo_append_upTo (text s t : List Char) :
    (upTo text s).append (upTo (text.drop s.length) t)
      = (upTo text (s ++ t) : Match γ) := by
  simp [upTo, append]

end Match

namespace Pattern

variable {γ : Type}

/-- The ways to take characters of a class off a text, at least one and
the most first. -/
def runs (p : Char → Bool) : List Char → List (Match γ)
  | [] => []
  | c :: rest =>
    if p c then
      (runs p rest).map (Match.append (.upTo (c :: rest) [c]))
        ++ [.upTo (c :: rest) [c]]
    else
      []

/-- The ways in which a text starts with a pattern, the preferred one
first. -/
def ways : Pattern γ → List Char → List (Match γ)
  | char p, c :: rest => if p c then [.upTo (c :: rest) [c]] else []
  | char _, [] => []
  | run p, text => runs p text
  | seq first second, text =>
    (ways first text).flatMap fun m =>
      (ways second m.rest).map (Match.append m)
  | choice left right, text => ways left text ++ ways right text
  | maybe inner, text => ways inner text ++ [.upTo text []]
  | named name inner, text => (ways inner text).map (Match.rename name)

/-- The preferred way in which a text starts with a pattern. -/
def first? (pattern : Pattern γ) (text : List Char) : Option (Match γ) :=
  (pattern.ways text).head?

-- ============================================================== matches

/-- A run takes characters off the front and changes none. -/
theorem append_eq_of_mem_runs {p : Char → Bool} {text : List Char}
    {m : Match γ} (h : m ∈ runs p text) : m.taken ++ m.rest = text := by
  induction text generalizing m with
  | nil => cases h
  | cons c text ih =>
    rw [runs] at h
    split at h
    · rcases List.mem_append.1 h with h | h
      · obtain ⟨n, hn, rfl⟩ := List.mem_map.1 h
        exact congrArg (c :: ·) (ih hn)
      · rw [List.mem_singleton.1 h]
        rfl
    · cases h

/-- A match takes something off the front and leaves the rest. -/
theorem append_eq_of_mem_ways {pattern : Pattern γ} {text : List Char}
    {m : Match γ} (h : m ∈ pattern.ways text) :
    m.taken ++ m.rest = text := by
  induction pattern generalizing text m with
  | char p =>
    cases text with
    | nil => cases h
    | cons c rest =>
      rw [ways] at h
      split at h
      · rw [List.mem_singleton.1 h]
        rfl
      · cases h
  | run p => exact append_eq_of_mem_runs h
  | seq first second ihFirst ihSecond =>
    obtain ⟨m, hm, h⟩ := List.mem_flatMap.1 h
    obtain ⟨n, hn, rfl⟩ := List.mem_map.1 h
    show (m.taken ++ n.taken) ++ n.rest = text
    rw [List.append_assoc, ihSecond hn, ihFirst hm]
  | choice left right ihLeft ihRight =>
    rcases List.mem_append.1 h with h | h
    · exact ihLeft h
    · exact ihRight h
  | maybe inner ih =>
    rcases List.mem_append.1 h with h | h
    · exact ih h
    · rw [List.mem_singleton.1 h]
      rfl
  | named name inner ih =>
    obtain ⟨n, hn, rfl⟩ := List.mem_map.1 h
    show n.taken ++ n.rest = text
    exact ih hn

/-- Without what is taken, the text is what is left. -/
theorem drop_of_first? {pattern : Pattern γ} {text : List Char}
    {m : Match γ} (h : pattern.first? text = some m) :
    text.drop m.taken.length = m.rest := by
  rw [← append_eq_of_mem_ways (List.mem_of_head? h), List.drop_left]

-- ======================================================= the preferred one

/-- Taking a run off the front leaves what is behind it. -/
theorem drop_length_takeWhile (p : Char → Bool) (text : List Char) :
    text.drop (text.takeWhile p).length = text.dropWhile p := by
  have hsplit := List.takeWhile_append_dropWhile (p := p) (l := text)
  calc text.drop (text.takeWhile p).length
      = (text.takeWhile p ++ text.dropWhile p).drop
          (text.takeWhile p).length := by rw [hsplit]
    _ = text.dropWhile p := List.drop_left

/-- The longest run is tried first. -/
theorem head?_runs (p : Char → Bool) (text : List Char) :
    (runs p text).head? =
      if (text.takeWhile p).isEmpty then none
      else some (.upTo text (text.takeWhile p) : Match γ) := by
  induction text with
  | nil => rfl
  | cons c text ih =>
    rw [runs]
    by_cases hc : p c = true
    · rw [if_pos hc, List.takeWhile_cons_of_pos hc, List.head?_append,
        List.head?_map, ih]
      cases htake : text.takeWhile p with
      | nil => rfl
      | cons d more => rfl
    · rw [if_neg hc, List.takeWhile_cons_of_neg hc]
      rfl

/-- A run, tried by itself, takes as much as it can. -/
theorem first?_run (p : Char → Bool) (text : List Char) :
    first? (run p : Pattern γ) text =
      if (text.takeWhile p).isEmpty then none
      else some (.upTo text (text.takeWhile p)) := head?_runs p text

/-- The right side of a choice is tried when the left one has no way at
all. -/
theorem first?_choice (left right : Pattern γ) (text : List Char) :
    first? (choice left right) text
      = (first? left text).or (first? right text) := List.head?_append

theorem first?_char (p : Char → Bool) (c : Char) (rest : List Char) :
    first? (char p : Pattern γ) (c :: rest) =
      if p c then some (.upTo (c :: rest) [c]) else none := by
  unfold first? ways
  split <;> rfl

/-- What may be missing is never in the way: if it has no way, nothing
is taken. -/
theorem first?_maybe (inner : Pattern γ) (text : List Char) :
    first? (maybe inner) text
      = some ((first? inner text).getD (.upTo text [])) := by
  unfold first?
  rw [ways, List.head?_append]
  cases (ways inner text).head? <;> rfl

/-- A name only marks what has been taken. -/
theorem first?_named (name : γ) (inner : Pattern γ) (text : List Char) :
    first? (named name inner) text
      = (first? inner text).map (Match.rename name) := List.head?_map

/-- Where the second pattern always has a way, the preferred way of the
first decides. -/
theorem first?_seq {first second : Pattern γ}
    (h : ∀ text, (second.ways text) ≠ []) (text : List Char) :
    first? (seq first second) text =
      (first.first? text).bind fun m =>
        (second.first? m.rest).map m.append := by
  unfold first?
  rw [ways]
  cases first.ways text with
  | nil => rfl
  | cons m more =>
    obtain ⟨n, others, hn⟩ := List.exists_cons_of_ne_nil (h m.rest)
    rw [List.flatMap_cons, hn, List.head?_cons, Option.bind_some, hn]
    rfl

/-- Sequences are tried in any grouping, with the same ways in the same
order. -/
theorem ways_seq_assoc (a b c : Pattern γ) (text : List Char) :
    ways (seq (seq a b) c) text = ways (seq a (seq b c)) text := by
  simp only [ways, List.flatMap_assoc, List.flatMap_map, List.map_flatMap,
    List.map_map]
  refine congrArg (a.ways text).flatMap (funext fun m => ?_)
  refine congrArg (b.ways m.rest).flatMap (funext fun n => ?_)
  refine List.map_congr_left fun l _ => ?_
  exact Match.append_assoc m n l

theorem ways_run (p : Char → Bool) (text : List Char) :
    ways (run p : Pattern γ) text = runs p text := rfl

theorem ways_choice (left right : Pattern γ) (text : List Char) :
    ways (choice left right) text = ways left text ++ ways right text :=
  rfl

/-- A character in front of a pattern is there or it is not; it gives no
second way. -/
theorem ways_seq_char (p : Char → Bool) (second : Pattern γ) (c : Char)
    (rest : List Char) :
    ways (seq (char p) second) (c :: rest) =
      if p c then
        (second.ways rest).map (Match.append (.upTo (c :: rest) [c]))
      else
        [] := by
  simp only [ways]
  split
  · rw [List.flatMap_singleton]
    rfl
  · rfl

/-- A part that may be missing splits the ways in two: those that take
it come first, those that leave it out come after. -/
theorem ways_seq_maybe (a b : Pattern γ) (text : List Char) :
    ways (seq (maybe a) b) text = ways (seq a b) text ++ ways b text := by
  simp only [ways, List.flatMap_append, List.flatMap_cons,
    List.flatMap_nil, List.append_nil]
  refine congrArg _ ?_
  exact List.map_id'' (Match.upTo_nil_append text) _

theorem first?_seq_assoc (a b c : Pattern γ) (text : List Char) :
    first? (seq (seq a b) c) text = first? (seq a (seq b c)) text :=
  congrArg List.head? (ways_seq_assoc a b c text)

/-- The preferred way of a part that may be missing is to take it.
Leaving it out is the second choice, made when what comes behind it
fails. -/
theorem first?_seq_maybe (a b : Pattern γ) (text : List Char) :
    first? (seq (maybe a) b) text
      = (first? (seq a b) text).or (first? b text) := by
  unfold first?
  rw [ways_seq_maybe, List.head?_append]

/-- A first part that is already taken stays in front of whatever comes
after it. -/
theorem flatMap_map_append (second : Pattern γ) (m : Match γ)
    (ms : List (Match γ)) :
    ((ms.map m.append).flatMap fun n =>
        (second.ways n.rest).map n.append)
      = (ms.flatMap fun n => (second.ways n.rest).map n.append).map
          m.append := by
  rw [List.flatMap_map, List.map_flatMap]
  refine congrArg ms.flatMap (funext fun n => ?_)
  rw [List.map_map]
  exact List.map_congr_left fun l _ => Match.append_assoc m n l

/-- Where the second pattern never starts with a character of the run,
the longest run is the only way. -/
theorem ways_seq_run {p : Char → Bool} {second : Pattern γ}
    (h : ∀ c rest, p c = true → second.ways (c :: rest) = [])
    (text : List Char) :
    ways (seq (run p) second) text =
      if (text.takeWhile p).isEmpty then []
      else (second.ways (text.dropWhile p)).map
        (Match.append (.upTo text (text.takeWhile p))) := by
  induction text with
  | nil => rfl
  | cons c text ih =>
    by_cases hc : p c = true
    · have hsplit : ways (seq (run p) second) (c :: text)
          = (ways (seq (run p) second) text).map
              (Match.append (.upTo (c :: text) [c]))
            ++ (second.ways text).map
                (Match.append (.upTo (c :: text) [c])) := by
        simp only [ways]
        rw [runs, if_pos hc, List.flatMap_append, flatMap_map_append,
          List.flatMap_singleton]
        rfl
      rw [hsplit, ih, List.takeWhile_cons_of_pos hc,
        List.dropWhile_cons_of_pos hc]
      cases text with
      | nil => rfl
      | cons d text =>
        by_cases hd : p d = true
        · -- a shorter run would leave a character that cannot follow it
          rw [h d text hd, List.takeWhile_cons_of_pos hd,
            List.dropWhile_cons_of_pos hd, List.map_nil, List.append_nil,
            if_neg (by simp), if_neg (by simp), List.map_map]
          refine List.map_congr_left fun m _ => ?_
          exact (Match.append_assoc _ _ m).symm
        · rw [List.takeWhile_cons_of_neg hd, List.dropWhile_cons_of_neg hd]
          rfl
    · simp only [ways]
      rw [runs, if_neg hc, List.takeWhile_cons_of_neg hc]
      rfl

/-- The form of `ways_seq_run` that a scanner uses: it may take the
longest run and forget about shorter ones. -/
theorem first?_seq_run {p : Char → Bool} {second : Pattern γ}
    (h : ∀ c rest, p c = true → second.ways (c :: rest) = [])
    (text : List Char) :
    first? (seq (run p) second) text =
      if (text.takeWhile p).isEmpty then none
      else (second.first? (text.dropWhile p)).map
        (Match.append (.upTo text (text.takeWhile p))) := by
  unfold first?
  rw [ways_seq_run h]
  split
  · rfl
  · exact List.head?_map

-- ============================================================== in front

/-- Whether a character is in none of the classes of a pattern. -/
def avoids (d : Char) : Pattern γ → Bool
  | char p => !p d
  | run p => !p d
  | seq first second => first.avoids d && second.avoids d
  | choice left right => left.avoids d && right.avoids d
  | maybe inner => inner.avoids d
  | named _ inner => inner.avoids d

/-- In front of a character outside the class, a run stops where it
stopped at the end of the text. -/
theorem runs_append {p : Char → Bool} {d : Char} (h : (!p d) = true)
    (text behind : List Char) :
    (runs p (text ++ d :: behind) : List (Match γ))
      = (runs p text).map (Match.extend (d :: behind)) := by
  have hd : ¬ p d = true := by simpa using h
  induction text with
  | nil => exact if_neg hd
  | cons c text ih =>
    rw [List.cons_append, runs, runs]
    split
    · rw [ih, List.map_append, List.map_map, List.map_map]
      rfl
    · rfl

/-- In front of a character that a pattern avoids, a text starts with
the pattern in the ways in which it does alone. -/
theorem ways_append {pattern : Pattern γ} {d : Char}
    (h : pattern.avoids d = true) (text behind : List Char) :
    pattern.ways (text ++ d :: behind)
      = (pattern.ways text).map (Match.extend (d :: behind)) := by
  induction pattern generalizing text with
  | char p =>
    cases text with
    | nil =>
      have hd : ¬ p d = true := by simpa [avoids] using h
      exact if_neg hd
    | cons c text =>
      rw [List.cons_append, ways, ways]
      split
      · rfl
      · rfl
  | run p => exact runs_append h text behind
  | seq first second ihFirst ihSecond =>
    obtain ⟨hfirst, hsecond⟩ := Bool.and_eq_true_iff.1 h
    simp only [ways]
    rw [ihFirst hfirst, List.flatMap_map, List.map_flatMap]
    refine congrArg (first.ways text).flatMap (funext fun m => ?_)
    show (second.ways (m.rest ++ d :: behind)).map _ = _
    rw [ihSecond hsecond, List.map_map, List.map_map]
    rfl
  | choice left right ihLeft ihRight =>
    obtain ⟨hleft, hright⟩ := Bool.and_eq_true_iff.1 h
    simp only [ways]
    rw [ihLeft hleft, ihRight hright, List.map_append]
  | maybe inner ih =>
    simp only [ways]
    rw [ih h, List.map_append]
    rfl
  | named name inner ih =>
    simp only [ways]
    rw [ih h, List.map_map, List.map_map]
    rfl

end Pattern

end UnitAlgebra.Text
