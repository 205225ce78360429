import StreamingJson.Lexer.Basic

/-!
# Progress of the lexer

A token is complete with the byte that ends it or, for a number, before the byte that follows it.
Either way no token is begun after it, so each token uses up a byte or the number read in part
before it. Hence a chunk gives finitely many tokens, and the lexer is a token source.

## Main statements

- `Scanner.settles_step` — after a token no token is begun, and a token complete before a byte
  was begun before that byte
- `Lexer.supply_next_lt` — every token uses up some of the supply
-/

namespace StreamingJson

/-- What a step that completes a token owes: no token is begun after it, and if it leaves the byte
unread then one was begun before it. -/
def Step.Settles (before : Lexeme) : Step → Prop
  | .shift _ => True
  | .consume (.ok _) next => next.lexeme = .between
  | .leave (.ok _) next => next.lexeme = .between ∧ before ≠ .between
  | .consume (.error _) _ | .leave (.error _) _ => True

namespace Scanner

theorem settles_openContainer (limit : Nat) (s : Scanner) (token : Token) (frame : Frame)
    (h : s.lexeme = .between) : (s.openContainer limit token frame).Settles .between := by
  unfold openContainer
  split
  · trivial
  · exact h

theorem settles_beginValue (limit : Nat) (shown : List UInt8) (s : Scanner) (b : UInt8)
    (lead : Lead) (h : s.lexeme = .between) :
    (s.beginValue limit shown b lead).Settles .between := by
  cases lead <;> first | trivial | exact settles_openContainer _ _ _ _ h

theorem settles_between (limit : Nat) (shown : List UInt8) (s : Scanner) (b : UInt8)
    (h : s.lexeme = .between) : (s.between limit shown b).Settles .between := by
  have begins := fun lead => settles_beginValue limit shown s b lead h
  unfold between
  split
  · trivial
  · split
    · unfold atRoot
      split <;> first | exact h | exact begins _
    · unfold inArray
      split <;> first | exact h | exact begins _ | trivial
    · unfold inObject
      split <;> first | exact h | exact begins _ | trivial

theorem settles_inNumber (shown : List UInt8) (s : Scanner) (b : UInt8) (phase : NumberPhase)
    (text : Array UInt8) : (s.inNumber shown b phase text).Settles (.number phase text) := by
  unfold inNumber
  split
  · trivial
  · split
    · split
      · exact ⟨rfl, by simp⟩
      · trivial
    · trivial

theorem settles_inWord (shown : List UInt8) (s : Scanner) (b : UInt8) (w : Word)
    (missing : List UInt8) : (s.inWord shown b w missing).Settles (.word w missing) := by
  unfold inWord
  split
  · trivial
  · split
    · trivial
    · split
      · rfl
      · trivial

theorem settles_inText (s : Scanner) (b : UInt8) (bytes : Array UInt8) (high : Option Nat) :
    (s.inText b bytes high).Settles (.text bytes high) := by
  unfold inText
  split
  · trivial
  · split
    · trivial
    · split
      · unfold closeText
        split
        · trivial
        · rfl
      · split <;> trivial

theorem settles_inEscape (s : Scanner) (b : UInt8) (bytes : Array UInt8) (high : Option Nat) :
    (s.inEscape b bytes high).Settles (.escape bytes high) := by
  unfold inEscape
  split
  · trivial
  · split
    · trivial
    · split <;> trivial

theorem settles_inCodeUnit (shown : List UInt8) (s : Scanner) (b : UInt8) (bytes : Array UInt8)
    (high : Option Nat) (value count : Nat) :
    (s.inCodeUnit shown b bytes high value count).Settles
      (.codeUnit bytes high value count) := by
  unfold inCodeUnit
  split
  · trivial
  · split
    · trivial
    · unfold closeCodeUnit
      split
      · split <;> trivial
      · split
        · trivial
        · split <;> trivial

/-- After a token no token is begun, and only a token begun before can end before a byte. -/
theorem settles_step (limit : Nat) (shown : List UInt8) (s : Scanner) (b : UInt8) :
    (s.step limit shown b).Settles s.lexeme := by
  unfold step
  split
  next h => rw [h]; exact settles_between limit shown s b h
  next h => rw [h]; exact settles_inWord ..
  next h => rw [h]; exact settles_inNumber ..
  next h => rw [h]; exact settles_inText ..
  next h => rw [h]; exact settles_inEscape ..
  next h => rw [h]; exact settles_inCodeUnit ..

end Scanner

namespace Lexer

theorem scan_token {l l' : Lexer} {bytes : List UInt8} {token : Token}
    (h : l.scan bytes = (.ok (some token), l')) :
    l'.scanner.lexeme = .between ∧
      (l'.unread.length < bytes.length ∨
        l'.unread.length = bytes.length ∧ l.scanner.lexeme ≠ .between) := by
  fun_induction scan l bytes with
  | case1 l => simp at h
  | case2 l b rest next hstep l₁ ih =>
    obtain ⟨hbetween, hlength⟩ := ih h
    have hdrop := (List.dropWhile_sublist next.lexeme.repeats (l := rest)).length_le
    refine ⟨hbetween, Or.inl ?_⟩
    rw [List.length_cons]
    omega
  | case3 l b rest result next hstep =>
    have settles := l.scanner.settles_step l.depthLimit (Utf8.leading (b :: rest)) b
    rw [hstep] at settles
    cases result with
    | error cause => simp [handBack] at h
    | ok t =>
      simp only [handBack, Prod.mk.injEq] at h
      obtain ⟨-, rfl⟩ := h
      exact ⟨settles, Or.inl (by simp)⟩
  | case4 l b rest result next hstep =>
    have settles := l.scanner.settles_step l.depthLimit (Utf8.leading (b :: rest)) b
    rw [hstep] at settles
    cases result with
    | error cause => simp [handBack] at h
    | ok t =>
      simp only [handBack, Prod.mk.injEq] at h
      obtain ⟨-, rfl⟩ := h
      exact ⟨settles.1, Or.inr ⟨rfl, settles.2⟩⟩

/-- Every token uses up some of the supply. -/
theorem supply_next_lt (l : Lexer) (token : Token) (l' : Lexer)
    (h : l.next = (.ok (some token), l')) : l'.supply < l.supply := by
  obtain ⟨hbetween, hlength⟩ := scan_token h
  simp only [supply, hbetween, if_true]
  split <;> rcases hlength with hlt | ⟨heq, hne⟩
  · omega
  · contradiction
  · omega
  · omega

instance : TokenSource Lexer where
  feed := feed
  next := next
  needsInput := needsInput
  isMidValue := isMidValue
  location := location
  fresh := fresh
  supply := supply
  supply_next_lt := supply_next_lt

end Lexer

end StreamingJson
