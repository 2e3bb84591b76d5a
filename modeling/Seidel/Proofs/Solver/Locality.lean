import Seidel.Proofs.Solver.Calls

/-!
# What an update reads

An update reads the values of the other variables that its equation mentions and nothing else, not
even the value that it replaces (`next_congr`). So a value that is no number is gone after one
update of its variable, a repeated update changes nothing, and two updates may change places when
neither reads what the other writes (`update_local`).
-/

namespace Seidel.Solver

variable {R : Type} [Scalar R] {system : LinearSystem R} {s t : Solver R} {p q : Nat}

/-! ## Equal values where they are read -/

/-- Two states have the same value wherever equation `p` reads one. -/
def AgreeFor (system : LinearSystem R) (p : Nat) (s t : Solver R) : Prop :=
  ∀ j, system.DependsOn p j → s.approximation.values[j]? = t.approximation.values[j]?

theorem solved?_eq_of_agree (agree : AgreeFor system p s t) :
    system.solved? p (valueOf s.approximation.values)
      = system.solved? p (valueOf t.approximation.values) := by
  apply LinearSystem.solved?_congr
  intro j depends
  rw [valueOf, valueOf, agree j depends]

theorem exists_next (hs : Serves system s) (ht : Serves system t) (hp : p < system.symbols.length)
    (regular : ¬ system.ZeroDiagonal p) (agree : AgreeFor system p s t) :
    ∃ value, s.next p = .ok value ∧ t.next p = .ok value := by
  have solved := solved?_eq_of_agree agree
  rcases next_cases hs.ready (hs.system_eq ▸ hp) with ⟨zero, _⟩ | ⟨_, value, eq, next⟩
  · exact absurd (hs.system_eq ▸ zero) regular
  rcases next_cases ht.ready (ht.system_eq ▸ hp) with ⟨zero, _⟩ | ⟨_, value', eq', next'⟩
  · exact absurd (ht.system_eq ▸ zero) regular
  rw [hs.system_eq] at eq
  rw [ht.system_eq] at eq'
  obtain rfl : value = value' := Option.some.inj (eq.symm.trans (solved.trans eq'))
  exact ⟨value, next, next'⟩

theorem update_fst (s : Solver R) (p : Nat) : (s.update p).1 = s.next p := by
  unfold update
  cases s.next p <;> rfl

theorem update_snd (s : Solver R) (p : Nat) :
    (s.update p).2 = match s.next p with
      | .ok value => s.store p value
      | .error _ => s := by
  unfold update
  cases s.next p <;> rfl

theorem update_of_next {value : R} (next : s.next p = .ok value) :
    s.update p = (.ok value, s.store p value) := by
  simp only [update, next]

/-- The counter is read too, but only to say when an update was refused. -/
theorem next_congr (hs : Serves system s) (ht : Serves system t) (agree : AgreeFor system p s t)
    (sweeps : t.sweeps = s.sweeps) : t.next p = s.next p := by
  rw [← update_fst, ← update_fst]
  rcases update_cases hs p with ⟨ge, eq⟩ | ⟨symbol, hsymbol, zero, eq⟩ | ⟨lt, regular, _⟩
  · rw [eq]
    exact (update_eq_noSuchPosition_iff ht p).mpr ge
  · rw [eq, ← sweeps]
    exact (update_eq_zeroDiagonal_iff ht hsymbol).mpr zero
  · obtain ⟨value, next, next'⟩ := exists_next hs ht lt regular agree
    rw [update_fst, update_fst, next, next']

/-! ## One update after another -/

/-- What an update gives is the same after one whose result it does not read, its own included. -/
theorem next_update (h : Serves system s) (unread : ¬ system.DependsOn p q) :
    (s.update q).2.next p = s.next p := by
  rw [update_snd]
  cases s.next q with
  | error e => rfl
  | ok value =>
    refine next_congr h (h.store q value) ?_ rfl
    intro j depends
    have ne : q ≠ j := fun eq => unread (eq ▸ depends)
    exact (List.getElem?_set_ne ne).symm

/-- A second update finds what the first has found and writes it once more. -/
theorem update_update (h : Serves system s) (p : Nat) :
    (s.update p).2.update p = s.update p := by
  have again : (s.update p).2.next p = s.next p :=
    next_update h fun depends => depends.1 rfl
  cases next : s.next p with
  | error e =>
    have refused : s.update p = (.error e, s) := by simp only [update, next]
    rw [refused, refused]
  | ok value =>
    rw [update_of_next next] at again ⊢
    rw [update_of_next (again.trans next)]
    simp only [store, List.set_set]

/-- Two updates may change places when neither reads what the other writes. -/
theorem update_comm (h : Serves system s) (ne : p ≠ q) (pq : ¬ system.DependsOn p q)
    (qp : ¬ system.DependsOn q p) :
    ((s.update p).2.update q).2 = ((s.update q).2.update p).2 := by
  rw [update_snd (s.update p).2, next_update h qp, update_snd (s.update q).2, next_update h pq,
    update_snd s, update_snd s]
  cases s.next p with
  | error e => rfl
  | ok value =>
    cases s.next q with
    | error e => rfl
    | ok value' => simp only [store, List.set_comm value value' ne]

/-- **An update reads what its equation mentions.** From any two states with the same values for
the variables that an equation with a usable diagonal mentions, its own variable aside, an update of
this variable gives the same value, bit for bit. So a repeated update gives its value again and
changes nothing, and two updates whose equations do not mention each other's variables give the same
values and lead to the same state in either order. -/
theorem update_local {system : LinearSystem Float} {s : Solver Float} (serves : Serves system s) :
    (∀ t, Serves system t → ∀ p < system.symbols.length, ¬ system.ZeroDiagonal p →
      (∀ j, j ≠ p → system.Mentions p j →
        s.approximation.values[j]? = t.approximation.values[j]?) →
      ∃ value, (s.update p).1 = .ok value ∧ (t.update p).1 = .ok value) ∧
    (∀ p, (s.update p).2.update p = s.update p) ∧
    ∀ p q, p ≠ q → ¬ system.Mentions p q → ¬ system.Mentions q p →
      ((s.update p).2.update q).2 = ((s.update q).2.update p).2 ∧
      ((s.update p).2.update q).1 = (s.update q).1 ∧
      ((s.update q).2.update p).1 = (s.update p).1 := by
  refine ⟨fun t ht p hp regular same => ?_, update_update serves, fun p q ne pq qp => ?_⟩
  · rw [update_fst, update_fst]
    exact exists_next serves ht hp regular fun j depends => same j depends.1.symm depends.2
  · have unread : ¬ system.DependsOn p q := fun depends => pq depends.2
    have unread' : ¬ system.DependsOn q p := fun depends => qp depends.2
    refine ⟨update_comm serves ne unread unread', ?_, ?_⟩
    · rw [update_fst, update_fst, next_update serves unread']
    · rw [update_fst, update_fst, next_update serves unread]

/-- `4x + z = 6`, `8z = 16` and `y - z = 1`, with the variables in the order `x`, `z`, `y`. -/
def branched : LinearSystem Float :=
  (LinearSystem.ofEquations? [⟨[⟨"x", .ofBits 0x4010000000000000⟩,
      ⟨"z", .ofBits 0x3FF0000000000000⟩], .ofBits 0x4018000000000000, by decide⟩,
    ⟨[⟨"z", .ofBits 0x4020000000000000⟩], .ofBits 0x4030000000000000, by decide⟩,
    ⟨[⟨"y", .ofBits 0x3FF0000000000000⟩, ⟨"z", .ofBits 0xBFF0000000000000⟩],
      .ofBits 0x3FF0000000000000, by decide⟩]).get (by decide +kernel)

/-- The state with two for `z` and the given values for `x` and `y`. -/
def branchedFrom (x y : Float) : Solver Float :=
  ⟨branched, ⟨branched.symbols, [x, .ofBits 0x4000000000000000, y]⟩, 0⟩

/-- One update of `x` makes up for a value that is no number, and the value of `y` is not read. -/
theorem branched_update_local :
    let garbled := branchedFrom (.ofBits 0x7FF8000000000000) (.ofBits 0x7FF0000000000000)
    let sound := branchedFrom (.ofBits 0) (.ofBits 0x4014000000000000)
    (garbled.update 0).1 = (sound.update 0).1 ∧
      (sound.update 0).1 = .ok (.ofBits 0x3FF0000000000000) ∧
      (garbled.update 0).2.update 0 = garbled.update 0 ∧
      ((garbled.update 0).2.update 2).2 = ((garbled.update 2).2.update 0).2 := by
  intro garbled sound
  have square : branched.IsSquare := by decide +kernel
  have length : branched.symbols.length = 3 := by decide +kernel
  have serves (x y : Float) : Serves branched (branchedFrom x y) :=
    ⟨square, rfl, rfl, length.symm⟩
  obtain ⟨same, again, exchanged⟩ :=
    update_local (serves (.ofBits 0x7FF8000000000000) (.ofBits 0x7FF0000000000000))
  have agree (j : Nat) (ne : j ≠ 0) (mentions : branched.Mentions 0 j) :
      garbled.approximation.values[j]? = sound.approximation.values[j]? := by
    have lt := mentions.lt.2
    obtain rfl | rfl : j = 1 ∨ j = 2 := by omega
    · rfl
    · exact absurd mentions (by decide +kernel)
  obtain ⟨value, eq, eq'⟩ :=
    same sound (serves _ _) 0 (by decide +kernel) (by decide +kernel) agree
  refine ⟨eq.trans eq'.symm, by decide +kernel, again 0, (exchanged 0 2 (by decide) ?_ ?_).1⟩
  · decide +kernel
  · decide +kernel

end Seidel.Solver
