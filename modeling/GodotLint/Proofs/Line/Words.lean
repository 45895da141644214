import GodotLint.Proofs.Line.Quoting
import GodotLint.Proofs.Text.Lines

/-!
# Words of a line

A text is cut at the first place of a part (`cutAt?_eq_some_iff`). The search for a word finds it only as
one of the pieces between the characters that are in no identifier (`mem_splitWhere_of_containsWord`).
Masking keeps what stands outside of literals (`maskFrom_outside`) and puts blanks in the place of their
contents (`mem_maskFrom_inside`).
-/

namespace GodotLint

open Text

namespace Text

/-- What follows a beginning. -/
theorem afterPrefix?_eq_some {p s t : List Char} : afterPrefix? p s = some t ↔ s = p ++ t := by
  induction p generalizing s with
  | nil => simp [afterPrefix?]
  | cons a p ih =>
      cases s with
      | nil => simp [afterPrefix?]
      | cons c s =>
          rw [afterPrefix?]
          split_ifs with h
          · rw [beq_iff_eq] at h
            simp [ih, h]
          · simp only [List.cons_append, List.cons.injEq, false_iff, not_and]
            rintro rfl
            simp at h

/-- A text is cut at the first place of a part. -/
theorem cutAt?_eq_some_iff {p s u v : List Char} (hp : p ≠ []) :
    cutAt? p s = some (u, v) ↔ s = u ++ p ++ v ∧ ∀ a b, s = a ++ p ++ b → u.length ≤ a.length := by
  induction s generalizing u with
  | nil => simp [cutAt?, hp]
  | cons c s ih =>
      rw [cutAt?]
      cases hafter : afterPrefix? p (c :: s) with
      | some rest =>
          rw [afterPrefix?_eq_some] at hafter
          simp only [Option.some.injEq, Prod.mk.injEq]
          constructor
          · rintro ⟨rfl, rfl⟩
            exact ⟨hafter, fun _ _ _ => Nat.zero_le _⟩
          · rintro ⟨hs, hfirst⟩
            obtain rfl := List.eq_nil_of_length_eq_zero (Nat.le_zero.mp (hfirst [] rest hafter))
            rw [hafter] at hs
            exact ⟨rfl, List.append_cancel_left hs⟩
      | none =>
          -- the part does not stand here, so every place of it is behind the first character
          have hlater : ∀ a b, c :: s = a ++ p ++ b → ∃ a', a = c :: a' ∧ s = a' ++ p ++ b := by
            intro a b h
            cases a with
            | nil =>
                have hsome := afterPrefix?_eq_some.mpr h
                cases hafter.symm.trans hsome
            | cons d a =>
                obtain ⟨rfl, rfl⟩ := List.cons.inj h
                exact ⟨a, rfl, rfl⟩
          simp only [Option.map_eq_some_iff, Prod.mk.injEq, Prod.exists]
          constructor
          · rintro ⟨u, v, hcut, rfl, rfl⟩
            obtain ⟨rfl, hfirst⟩ := ih.mp hcut
            refine ⟨rfl, fun a b h => ?_⟩
            obtain ⟨a, rfl, hs⟩ := hlater a b h
            exact Nat.succ_le_succ (hfirst a b hs)
          · rintro ⟨hs, hfirst⟩
            obtain ⟨u, rfl, hrest⟩ := hlater u v hs
            refine ⟨u, v, ih.mpr ⟨hrest, fun a b h => ?_⟩, rfl, rfl⟩
            exact Nat.le_of_succ_le_succ (hfirst (c :: a) b (congrArg (c :: ·) h))

/-- A text is not cut if it does not have the part. -/
theorem cutAt?_eq_none_iff {p s : List Char} (hp : p ≠ []) : cutAt? p s = none ↔ ¬ p <:+: s := by
  induction s with
  | nil => simp [cutAt?, hp]
  | cons c s ih =>
      rw [cutAt?, List.infix_cons_iff]
      cases hafter : afterPrefix? p (c :: s) with
      | some rest =>
          have hhere : p <+: c :: s := ⟨rest, (afterPrefix?_eq_some.mp hafter).symm⟩
          simp [hhere]
      | none =>
          have hhere : ¬ p <+: c :: s := by
            rintro ⟨rest, h⟩
            cases hafter.symm.trans (afterPrefix?_eq_some.mpr h.symm)
          simp [hhere, ih]

end Text

namespace Line

/-! ## The search for a word -/

/-- Where a word is found it stands alone. -/
theorem exists_of_searchWord {word : List Char} {previous : Option Char} {rest : List Char}
    (h : searchWord word previous rest = .found) : ∃ u v, rest = u ++ word ++ v ∧
      (u.getLast?.or previous).all (!isIdentChar ·) = true ∧ endsWord v = true := by
  induction rest generalizing previous with
  | nil =>
      rw [searchWord] at h
      split_ifs at h with hfound
      rw [Bool.and_eq_true, List.isEmpty_iff] at hfound
      exact ⟨[], [], by simp [hfound.1], by simpa using hfound.2, rfl⟩
  | cons c rest ih =>
      have hlater : searchWord word (some c) rest = .found → ∃ u v, c :: rest = u ++ word ++ v ∧
          (u.getLast?.or previous).all (!isIdentChar ·) = true ∧ endsWord v = true := by
        intro h
        obtain ⟨u, v, rfl, hu, hv⟩ := ih h
        refine ⟨c :: u, v, by simp, ?_, hv⟩
        rw [List.getLast?_cons]
        cases hlast : u.getLast? <;> simp_all
      rw [searchWord.eq_def] at h
      simp only at h
      split at h
      · exact hlater h
      · rename_i after hafter
        rw [afterPrefix?_eq_some] at hafter
        split_ifs at h with hstands hsize
        · rw [Bool.and_eq_true] at hstands
          exact ⟨[], after, by simpa using hafter, by simpa using hstands.1, hstands.2⟩
        · split at h
          · cases h
          · exact hlater h

/-- A word that a text contains is one of the pieces between the characters of no identifier. -/
theorem mem_splitWhere_of_containsWord {text word : List Char}
    (hword : ∀ c ∈ word, isIdentChar c = true) (h : containsWord text word = true) :
    word ∈ splitWhere (!isIdentChar ·) text := by
  rw [containsWord, beq_iff_eq] at h
  obtain ⟨u, v, rfl, hu, hv⟩ := exists_of_searchWord h
  have hplain : ∀ c ∈ word, (!isIdentChar c) = false := fun c hc => by simp [hword c hc]
  have hend : word ∈ splitWhere (!isIdentChar ·) (word ++ v) := by
    cases v with
    | nil => simp [splitWhere_of_forall hplain]
    | cons c v =>
        rw [splitWhere_append_cons (by simpa [endsWord] using hv), splitWhere_of_forall hplain]
        simp
  rcases List.eq_nil_or_concat u with rfl | ⟨u, c, rfl⟩
  · simpa using hend
  · have hc : (!isIdentChar c) = true := by simpa using hu
    rw [List.concat_eq_append, List.append_assoc, List.append_assoc, List.singleton_append,
      splitWhere_append_cons hc]
    exact List.mem_append_right _ hend

/-- A word that stands alone somewhere is found, if its characters are ASCII. -/
theorem searchWord_append {word u v : List Char} {previous : Option Char} (hne : word ≠ [])
    (hsize : ∀ c ∈ word, c.utf8Size = 1)
    (hu : (u.getLast?.or previous).all (!isIdentChar ·) = true) (hv : endsWord v = true) :
    searchWord word previous (u ++ word ++ v) = .found := by
  induction u generalizing previous with
  | nil =>
      obtain ⟨c, w, rfl⟩ := List.exists_cons_of_ne_nil hne
      have hafter : afterPrefix? (c :: w) (c :: w ++ v) = some v := afterPrefix?_eq_some.mpr rfl
      have hprevious : previous.all (!isIdentChar ·) = true := by simpa using hu
      rw [List.nil_append, List.cons_append, searchWord.eq_def]
      rw [List.cons_append] at hafter
      simp only [hafter, hprevious, hv, Bool.and_self, if_true]
  | cons c u ih =>
      have hlater : searchWord word (some c) (u ++ word ++ v) = .found := by
        refine ih ?_
        rw [List.getLast?_cons] at hu
        cases hlast : u.getLast? <;> simp_all
      rw [List.cons_append, List.cons_append, searchWord.eq_def]
      simp only
      split
      · exact hlater
      · rename_i after hafter
        rw [afterPrefix?_eq_some] at hafter
        obtain ⟨d, w, rfl⟩ := List.exists_cons_of_ne_nil hne
        obtain ⟨rfl, -⟩ := List.cons.inj hafter
        have hrest : u ++ c :: w ++ v ≠ [] := by simp
        split_ifs
        · rfl
        · obtain ⟨e, r, hr⟩ := List.exists_cons_of_ne_nil hrest
          rw [hr] at hlater ⊢
          exact hlater
        · exact absurd (hsize c (by simp)) ‹_›

/-- A word that stands alone somewhere is contained, if its characters are ASCII. -/
theorem containsWord_append {word u v : List Char} (hne : word ≠ [])
    (hsize : ∀ c ∈ word, c.utf8Size = 1) (hu : u.getLast?.all (!isIdentChar ·) = true)
    (hv : endsWord v = true) : containsWord (u ++ word ++ v) word = true := by
  rw [containsWord, findWord, searchWord_append hne hsize (by simpa using hu) hv]
  rfl

/-! ## Masking -/

theorem maskFrom_append (q : Quoting) (a b : List Char) :
    maskFrom q (a ++ b) = maskFrom q a ++ maskFrom (q.read a) b := by
  induction a generalizing q with
  | nil => rfl
  | cons c a ih => simp only [List.cons_append, maskFrom, ih, Quoting.read_cons, List.append_assoc]

/-- Text without quotation marks outside of literals is kept. -/
theorem maskFrom_outside {s : List Char} (h : ∀ c ∈ s, ¬ Quoting.IsMark c) :
    maskFrom .outside s = s := by
  induction s with
  | nil => rfl
  | cons c s ih =>
      have hnext := Quoting.next_outside_of_not_mark (h c (by simp))
      rw [maskFrom, hnext, ih fun d hd => h d (by simp [hd])]
      rfl

/-- Masking brings in nothing but blanks. -/
theorem mem_maskFrom {q : Quoting} {s : List Char} {c : Char} (h : c ∈ maskFrom q s) :
    c = ' ' ∨ c ∈ s := by
  induction s generalizing q with
  | nil => cases h
  | cons d s ih =>
      rw [maskFrom, List.mem_append] at h
      rcases h with h | h
      · split_ifs at h
        · exact .inl (List.eq_of_mem_replicate h)
        · exact .inr (by simp_all)
      · exact (ih h).imp_right (List.mem_cons_of_mem _)

/-- Inside of a literal, text without its mark becomes blank, and the literal goes on. -/
theorem mem_maskFrom_inside {mark : Char} {s : List Char} (h : mark ∉ s) {q : Quoting}
    (hq : q = .inside mark ∨ q = .escaped mark) :
    (∀ c ∈ maskFrom q s, c = ' ') ∧ (q.read s = .inside mark ∨ q.read s = .escaped mark) := by
  induction s generalizing q with
  | nil => exact ⟨by simp [maskFrom], hq⟩
  | cons c s ih =>
      simp only [List.mem_cons, not_or] at h
      have hnext : q.next c = .inside mark ∨ q.next c = .escaped mark := by
        rcases hq with rfl | rfl
        · rw [Quoting.next]
          split_ifs with hslash hmark
          · exact .inr rfl
          · exact absurd (beq_iff_eq.mp hmark).symm h.1
          · exact .inl rfl
        · exact .inl rfl
      have hinside : ∀ r : Quoting, r = .inside mark ∨ r = .escaped mark → r.isInside = true := by
        rintro r (rfl | rfl) <;> rfl
      obtain ⟨hblank, hread⟩ := ih h.2 hnext
      refine ⟨fun d hd => ?_, hread⟩
      rw [maskFrom, hinside q hq, hinside _ hnext, List.mem_append] at hd
      exact hd.elim (fun hd => List.eq_of_mem_replicate hd) (hblank d)

end Line

end GodotLint
