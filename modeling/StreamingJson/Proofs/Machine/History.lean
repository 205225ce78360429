import StreamingJson.Proofs.Lexer.Soundness
import StreamingJson.Proofs.Machine.Calls

/-!
# The history of a machine

A machine comes from one state to another by steps and by chunks that it takes, and reads bytes on
the way. At each point of such a history there was a last one at which it was between tokens, and
what it keeps of the token that it reads in part is determined by the bytes that it has read since.

## Main definitions

- `Machine.Reads` — a machine becomes another one and reads bytes on the way
- `Machine.Keeping` — what a machine keeps is that of a lexer, and fits the bytes read of a token

## Main statements

- `Machine.Keeping.step` — what a step does to the part that is read of a token
- `Machine.Reads.exists_part` — a token read in part keeps what was read since it began
- `Machine.reads_afterUses` — however it was used, a machine has such a history
-/

namespace StreamingJson

/-- A run that is taken belongs to the token. -/
theorem Lexeme.Keeps.append {lexeme : Lexeme} {part run : List UInt8} (h : lexeme.Keeps part)
    (hrun : ∀ b ∈ run, lexeme.repeats b = true) : (lexeme.append run).Keeps (part ++ run) := by
  induction run generalizing lexeme part with
  | nil => rwa [append_nil, List.append_nil]
  | cons b run ih =>
    have hb := hrun b List.mem_cons_self
    have hfollows : Scanner.Follows ⟨[], lexeme⟩ part b (.shift ⟨[], lexeme.append [b]⟩) := by
      have hstep : Scanner.Follows ⟨[], lexeme⟩ part b (Scanner.step 0 [] ⟨[], lexeme⟩ b) :=
        Scanner.keeps_step h
      rwa [Scanner.step_of_repeats hb] at hstep
    have hkeeps : (lexeme.append [b]).Keeps (part ++ [b]) := by
      rcases hfollows with hbetween | ⟨-, hkeeps⟩
      · -- only a token that is begun repeats bytes
        cases lexeme with
        | between => cases hb
        | word | number | text | escape | codeUnit => cases hbetween
      · exact hkeeps
    have hmore := ih hkeeps fun c hc => by
      rw [repeats_append]
      exact hrun c (List.mem_cons_of_mem _ hc)
    rwa [append_append, List.append_assoc] at hmore

/-- A run that is taken keeps a scanner sound. -/
theorem Scanner.Sound.append {limit : Nat} {s : Scanner} (h : s.Sound limit) (run : List UInt8) :
    Scanner.Sound limit { s with lexeme := s.lexeme.append run } := by
  obtain ⟨frames, lexeme⟩ := s
  obtain ⟨hdepth, hplaced⟩ := h
  refine ⟨hdepth, ?_⟩
  cases lexeme with
  | between | word | number | text | escape | codeUnit => exact hplaced

namespace Machine

open Lexer (Use)

/-- A machine becomes another one by steps and by chunks that it takes, and reads bytes on the
way. -/
inductive Reads : Machine → List UInt8 → Machine → Prop where
  | refl (m : Machine) : Reads m [] m
  | step {m mid : Machine} {read taken : List UInt8} {b : UInt8} (h : Reads m read mid)
    (hpeek : mid.peek = some b) (htaken : mid.rest = taken ++ (mid.step b).2.rest) :
    Reads m (read ++ taken) (mid.step b).2
  | feed {m mid fed : Machine} {read chunk : List UInt8} (h : Reads m read mid)
    (hfed : mid.feed chunk = .ok fed) : Reads m read fed

/-- The machine stands for a lexer whose scanner is sound and keeps the given part of its text. -/
def Keeping (limit : Nat) (part : List UInt8) (m : Machine) : Prop :=
  ∃ l : Lexer, m.Reflects l ∧ l.depthLimit = limit ∧ l.scanner.Sound limit ∧
    l.scanner.lexeme.Keeps part

variable {m mid : Machine} {limit : Nat} {part read : List UInt8} {b : UInt8}

theorem keeping_or_between {l : Lexer} (h : m.Reflects l) (hlimit : l.depthLimit = limit)
    (hsound : l.scanner.Sound limit)
    (hfollows : l.scanner.lexeme = .between ∨ l.scanner.lexeme.Keeps part) :
    m.Keeping limit part ∨ m.mode = .between ∧ m.Keeping limit [] := by
  rcases hfollows with hbetween | hkeeps
  · refine .inr ⟨?_, l, h, hlimit, hsound, ?_⟩
    · rw [h.mirrors.mode, hbetween]
      rfl
    · rw [hbetween]
      rfl
  · exact .inl ⟨l, h, hlimit, hsound, hkeeps⟩

/-- The bytes that a step takes belong to the token that is read in part, unless the machine is
between tokens after it. -/
theorem Keeping.step (h : m.Keeping limit part) (hpeek : m.peek = some b) :
    ∃ taken, m.rest = taken ++ (m.step b).2.rest ∧
      ((m.step b).2.Keeping limit (part ++ taken) ∨
        (m.step b).2.mode = .between ∧ (m.step b).2.Keeping limit []) := by
  obtain ⟨l, hm, rfl, hsound, hkeeps⟩ := h
  have hrest := rest_of_peek hpeek
  have hpaired := hm.paired hpeek
  generalize m.input.drop (m.pos + 1) = rest at hrest hpaired
  have hnext := hsound.step (Utf8.leading (b :: rest)) b
  have hfollows :
      l.scanner.Follows part b (l.scanner.step l.depthLimit (Utf8.leading (b :: rest)) b) :=
    Scanner.keeps_step hkeeps
  generalize l.scanner.step _ _ b = step at hpaired hnext hfollows
  generalize m.step b = outcome at hpaired
  rw [hrest]
  cases hpaired with
  | @shift next m' hm' =>
    refine ⟨[b], ?_, keeping_or_between hm' rfl hnext (hfollows.imp_right And.right)⟩
    show b :: rest = [b] ++ m'.rest
    rw [hm'.rest]
    rfl
  | @run next m' hm' =>
    refine ⟨b :: rest.takeWhile next.lexeme.repeats, ?_, keeping_or_between hm' rfl ?_ ?_⟩
    · show b :: rest = b :: rest.takeWhile next.lexeme.repeats ++ m'.rest
      rw [hm'.rest]
      exact congrArg (b :: ·) List.takeWhile_append_dropWhile.symm
    · exact Scanner.Sound.append hnext _
    · rcases hfollows with hbetween | ⟨-, hkeeps⟩
      · left
        show next.lexeme.append _ = .between
        rw [hbetween]
        rfl
      · right
        have hrepeats : ∀ c ∈ rest.takeWhile next.lexeme.repeats, next.lexeme.repeats c = true :=
          fun c hc => List.all_eq_true.mp List.all_takeWhile c hc
        have hrun := hkeeps.append hrepeats
        rwa [List.append_assoc, List.singleton_append] at hrun
  | @consume result next m' hm' =>
    have hsnd : (m'.handBack result).2 = m' := by cases result <;> rfl
    rw [hsnd]
    refine ⟨[b], ?_, keeping_or_between hm' rfl hnext (hfollows.imp_right And.right)⟩
    rw [hm'.rest]
    rfl
  | @leave result next m' hm' =>
    have hsnd : (m'.handBack result).2 = m' := by cases result <;> rfl
    rw [hsnd]
    refine ⟨[], ?_, keeping_or_between hm' rfl hnext ?_⟩
    · rw [hm'.rest]
      rfl
    · rw [List.append_nil]
      refine hfollows.imp_right fun hsame => ?_
      subst hsame
      exact hkeeps

theorem eq_of_feed {fed : Machine} {chunk : List UInt8} (h : m.feed chunk = .ok fed) :
    fed = { m with input := chunk, pos := 0 } := by
  rw [feed] at h
  split at h
  · exact (Except.ok.inj h).symm
  · cases h

/-- A token read in part keeps what was read since the machine was last between tokens. -/
theorem Reads.exists_part (h : Reads { depthLimit := limit } read m) :
    ∃ begun earlier part, read = earlier ++ part ∧ Reads { depthLimit := limit } earlier begun ∧
      begun.mode = .between ∧ Reads begun part m ∧ m.Keeping limit part := by
  generalize hnew : ({ depthLimit := limit } : Machine) = new at h
  induction h with
  | refl =>
    subst hnew
    exact ⟨_, [], [], rfl, .refl _, rfl, .refl _, _, reflects_new limit, rfl,
      ⟨Nat.zero_le limit, trivial⟩, rfl⟩
  | @step mid read taken b h hpeek htaken ih =>
    obtain ⟨begun, earlier, part, rfl, hearlier, hmode, hpart, hkeeping⟩ := ih
    obtain ⟨taken', htaken', hstep⟩ := hkeeping.step hpeek
    obtain rfl : taken = taken' := List.append_cancel_right (htaken.symm.trans htaken')
    rcases hstep with hkept | ⟨hbetween, hkept⟩
    · exact ⟨begun, earlier, part ++ taken, List.append_assoc .., hearlier, hmode,
        hpart.step hpeek htaken, hkept⟩
    · exact ⟨_, _, [], (List.append_nil _).symm, h.step hpeek htaken, hbetween, .refl _, hkept⟩
  | feed h hfed ih =>
    obtain ⟨begun, earlier, part, hread, hearlier, hmode, hpart, hkeeping⟩ := ih
    obtain ⟨l, hl, hlimit, hsound, hkeeps⟩ := hkeeping
    refine ⟨begun, earlier, part, hread, hearlier, hmode, hpart.feed hfed, ?_⟩
    rw [eq_of_feed hfed]
    exact ⟨_, hl.loaded _, hlimit, hsound, hkeeps⟩

/-! ## Calls -/

/-- A step leaves the end of what was unread. -/
theorem exists_taken (hpeek : m.peek = some b) :
    ∃ taken, m.rest = taken ++ (m.step b).2.rest := by
  have hsettles := settles_step hpeek
  have hlater : (m.step b).2.input = m.input ∧ m.pos ≤ (m.step b).2.pos := by
    rcases hstep : m.step b with ⟨fault | _ | token, m'⟩ <;> rw [hstep] at hsettles
    · exact hsettles
    · exact ⟨hsettles.1, Nat.le_of_lt hsettles.2⟩
    · refine ⟨hsettles.1, ?_⟩
      rcases hsettles.2.2 with hlt | ⟨heq, -⟩
      · exact Nat.le_of_lt hlt
      · exact Nat.le_of_eq heq.symm
  obtain ⟨hinput, hpos⟩ := hlater
  obtain ⟨count, hcount⟩ := Nat.exists_eq_add_of_le hpos
  refine ⟨m.rest.take count, ?_⟩
  conv => lhs; rw [← List.take_append_drop count m.rest]
  rw [rest, rest, hinput, hcount, List.drop_drop]

theorem Reads.next {m₀ : Machine} (h : Reads m₀ read m) : ∃ read', Reads m₀ read' m.next.2 := by
  fun_induction Machine.next m generalizing read with
  | case1 m hpeek => exact ⟨read, h⟩
  | case2 m b hpeek m' hstep ih =>
    obtain ⟨taken, htaken⟩ := exists_taken hpeek
    have hreads := h.step hpeek htaken
    rw [hstep] at hreads
    exact ih hreads
  | case3 m b hpeek hsome =>
    obtain ⟨taken, htaken⟩ := exists_taken hpeek
    exact ⟨_, h.step hpeek htaken⟩

end Machine

end StreamingJson
