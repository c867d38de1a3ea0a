import Mathlib.Data.List.Basic
import Mathlib.Data.List.Infix

/-! Streams of records that follow each other with nothing between them, and the steps by which a
reader takes the front of a stream off. -/
namespace Records
variable {α β : Type*}

/-- What follows a given beginning. -/
def strip [DecidableEq β] (pre s : List β) : Option (List β) :=
  if pre.isPrefixOf s then some (s.drop pre.length) else none

/-- Exactly `n` elements, and the rest. -/
def takeExactly (n : ℕ) (s : List β) : Option (List β × List β) :=
  if n ≤ s.length then some (s.splitAt n) else none

theorem strip_append [DecidableEq β] (pre rest : List β) :
    strip pre (pre ++ rest) = some rest := by
  rw [strip, if_pos (List.isPrefixOf_iff_prefix.mpr (List.prefix_append pre rest)),
    List.drop_left]

theorem takeExactly_append (front rest : List β) :
    takeExactly front.length (front ++ rest) = some (front, rest) := by
  rw [takeExactly, if_pos (by simp), List.splitAt_eq, List.take_left, List.drop_left]

theorem strip_eq_some [DecidableEq β] {pre s rest : List β} (h : strip pre s = some rest) :
    s = pre ++ rest := by
  unfold strip at h
  split_ifs at h with hpre
  obtain ⟨more, rfl⟩ := List.isPrefixOf_iff_prefix.mp hpre
  rw [List.drop_left, Option.some.injEq] at h
  rw [h]

theorem takeExactly_eq_some {n : ℕ} {s front rest : List β}
    (h : takeExactly n s = some (front, rest)) : s = front ++ rest ∧ front.length = n := by
  unfold takeExactly at h
  split_ifs at h with hn
  rw [List.splitAt_eq, Option.some.injEq, Prod.mk.injEq] at h
  obtain ⟨rfl, rfl⟩ := h
  exact ⟨(List.take_append_drop n s).symm, List.length_take_of_le hn⟩

section Stream
variable (write : α → List β) (read : List β → Option (α × List β))

/-- All records of a stream, at most `n` of them. -/
def readAll : ℕ → List β → Option (List α)
  | _, [] => some []
  | 0, _ :: _ => none
  | n + 1, b :: s => (read (b :: s)).bind fun r => (readAll n r.2).map (r.1 :: ·)

/-- A record takes up at least one element, so the length of the stream bounds their number. -/
def decode (s : List β) : Option (List α) := readAll read s.length s

/-- The reader finds the record at the front of every stream that begins with it. -/
structure Readable (a : α) : Prop where
  nonempty : write a ≠ []
  read_append : ∀ rest, read (write a ++ rest) = some (a, rest)

variable {write read}

theorem readAll_step {n : ℕ} {s : List β} (h : s ≠ []) :
    readAll read (n + 1) s = (read s).bind fun r => (readAll read n r.2).map (r.1 :: ·) := by
  cases s with
  | nil => contradiction
  | cons b s => rfl

theorem readAll_flatMap {as : List α} (h : ∀ a ∈ as, Readable write read a) {n : ℕ}
    (hn : as.length ≤ n) : readAll read n (as.flatMap write) = some as := by
  induction as generalizing n with
  | nil => cases n <;> rfl
  | cons a as ih =>
    obtain ⟨n, rfl⟩ : ∃ m, n = m + 1 := ⟨n - 1, by simp at hn; omega⟩
    have ha := h a List.mem_cons_self
    have hrest := ih (fun b hb => h b (List.mem_cons_of_mem a hb)) (by simpa using hn)
    rw [List.flatMap_cons, readAll_step (List.append_ne_nil_of_left_ne_nil ha.nonempty _),
      ha.read_append, Option.bind_some, hrest]
    rfl

theorem length_le_flatMap {as : List α} (h : ∀ a ∈ as, write a ≠ []) :
    as.length ≤ (as.flatMap write).length := by
  induction as with
  | nil => exact Nat.zero_le _
  | cons a as ih =>
    have ha := List.length_pos_iff.mpr (h a List.mem_cons_self)
    have hrest := ih fun b hb => h b (List.mem_cons_of_mem a hb)
    rw [List.flatMap_cons, List.length_append, List.length_cons]
    omega

/-- A stream of readable records decodes to them. -/
theorem decode_flatMap {as : List α} (h : ∀ a ∈ as, Readable write read a) :
    decode read (as.flatMap write) = some as :=
  readAll_flatMap h (length_le_flatMap fun a ha => (h a ha).nonempty)

/-- What a reader makes of more input does not change what it has read. -/
def Stable (read : List β → Option (α × List β)) : Prop :=
  ∀ s more a rest, read s = some (a, rest) → read (s ++ more) = some (a, rest ++ more)

variable (read) in
/-- The records that stand in a stream as a whole, at most `n` of them. -/
def readWhole : ℕ → List β → List α
  | _, [] => []
  | 0, _ :: _ => []
  | n + 1, b :: s =>
    match read (b :: s) with
    | none => []
    | some (a, rest) => a :: readWhole n rest

variable (read) in
def received (s : List β) : List α := readWhole read s.length s

theorem readWhole_some {n : ℕ} {s rest : List β} {a : α} (hs : s ≠ [])
    (h : read s = some (a, rest)) : readWhole read (n + 1) s = a :: readWhole read n rest := by
  cases s with
  | nil => contradiction
  | cons b s => rw [readWhole, h]

theorem readWhole_none {n : ℕ} {s : List β} (h : read s = none) : readWhole read n s = [] := by
  cases s with
  | nil => cases n <;> rfl
  | cons b s =>
    cases n with
    | zero => rfl
    | succ n => rw [readWhole, h]

/-- Nothing is read from a record that is cut short. -/
theorem read_cut (hstable : Stable read) {a : α} (ha : Readable write read a) {front back : List β}
    (hcut : front ++ back = write a) (hback : back ≠ []) : read front = none := by
  cases hread : read front with
  | none => rfl
  | some r =>
    have hmore := hstable front back r.1 r.2 hread
    have hwhole := ha.read_append []
    rw [List.append_nil] at hwhole
    rw [hcut, hwhole, Option.some.injEq, Prod.mk.injEq] at hmore
    exact absurd (List.append_eq_nil_iff.mp hmore.2.symm).2 hback

/-- From the beginning of a stream the records are read that stand in it as a whole. -/
theorem readWhole_prefix (hstable : Stable read) {as : List α}
    (h : ∀ a ∈ as, Readable write read a) {s : List β} (hs : s <+: as.flatMap write) {n : ℕ}
    (hn : s.length ≤ n) :
    readWhole read n s <+: as ∧
      ∀ before, before <+: as → before.flatMap write <+: s → before <+: readWhole read n s := by
  induction as generalizing s n with
  | nil =>
    obtain rfl : s = [] := List.prefix_nil.mp hs
    rw [show readWhole read n [] = [] by cases n <;> rfl]
    exact ⟨List.prefix_rfl, fun before hbefore _ => hbefore⟩
  | cons a as ih =>
    have ha := h a List.mem_cons_self
    by_cases hwhole : write a <+: s
    · obtain ⟨s', rfl⟩ := hwhole
      have hpos := List.length_pos_iff.mpr ha.nonempty
      obtain ⟨m, rfl⟩ : ∃ m, n = m + 1 := ⟨n - 1, by simp at hn; omega⟩
      rw [List.flatMap_cons, List.prefix_append_right_inj] at hs
      obtain ⟨hshown, hall⟩ := ih (fun b hb => h b (List.mem_cons_of_mem a hb)) hs
        (n := m) (by simp at hn; omega)
      rw [readWhole_some (List.append_ne_nil_of_left_ne_nil ha.nonempty _) (ha.read_append s')]
      refine ⟨List.cons_prefix_cons.mpr ⟨rfl, hshown⟩, fun before hbefore hfull => ?_⟩
      cases before with
      | nil => exact List.nil_prefix
      | cons b before =>
        obtain ⟨rfl, hrest⟩ := List.cons_prefix_cons.mp hbefore
        rw [List.flatMap_cons, List.prefix_append_right_inj] at hfull
        exact List.cons_prefix_cons.mpr ⟨rfl, hall before hrest hfull⟩
    · have hwrite : write a <+: (a :: as).flatMap write := ⟨as.flatMap write, rfl⟩
      obtain ⟨back, hcut⟩ := (List.prefix_or_prefix_of_prefix hs hwrite).resolve_right hwhole
      have hback : back ≠ [] := by
        rintro rfl
        exact hwhole ⟨[], by rw [← hcut, List.append_nil, List.append_nil]⟩
      rw [readWhole_none (read_cut hstable ha hcut hback)]
      refine ⟨List.nil_prefix, fun before hbefore hfull => ?_⟩
      cases before with
      | nil => exact List.nil_prefix
      | cons b before =>
        obtain ⟨rfl, _⟩ := List.cons_prefix_cons.mp hbefore
        exact absurd ((List.prefix_append _ _).trans hfull) hwhole

/-- A reader of a stream that is cut short gets nothing wrong and misses no record that is there. -/
theorem received_prefix (hstable : Stable read) {as : List α}
    (h : ∀ a ∈ as, Readable write read a) {s : List β} (hs : s <+: as.flatMap write) :
    received read s <+: as ∧
      ∀ before, before <+: as → before.flatMap write <+: s → before <+: received read s :=
  readWhole_prefix hstable h hs le_rfl

/-- The same behind a header: from what a writer has sent of a stream, its reader gets at least the
records that were finished and at most those that were begun. -/
theorem received_between (hstable : Stable read) {as done : List α}
    (h : ∀ a ∈ as, Readable write read a) (hdone : done <+: as) {header s : List β}
    (hs : s <+: header ++ as.flatMap write)
    (hfinished : done = [] ∨ header ++ done.flatMap write <+: s) :
    done <+: received read (s.drop header.length) ∧ received read (s.drop header.length) <+: as ∧
      (s = header ++ as.flatMap write → received read (s.drop header.length) = as) := by
  have hbody : s.drop header.length <+: as.flatMap write := by
    have hdrop := hs.drop header.length
    rwa [List.drop_left] at hdrop
  obtain ⟨hmost, hleast⟩ := received_prefix hstable h hbody
  refine ⟨?_, hmost, fun hall => ?_⟩
  · rcases hfinished with rfl | hfinished
    · exact List.nil_prefix
    · have hdrop := hfinished.drop header.length
      rw [List.drop_left] at hdrop
      exact hleast done hdone hdrop
  · have hwhole : as.flatMap write <+: s.drop header.length := by
      rw [hall, List.drop_left]
    exact hmost.eq_of_length_le (hleast as List.prefix_rfl hwhole).length_le

end Stream
end Records
