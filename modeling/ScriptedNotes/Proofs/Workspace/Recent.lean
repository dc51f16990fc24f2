import Mathlib.Data.List.Infix
import Mathlib.Tactic.Common
import ScriptedNotes.Config

/-!
The workspaces of late. Remembering one puts it in front of the others, takes away what it was
remembered as before and cuts the list off. What is cut off never matters again: a list of different
paths holds at most one that is the same as the next, so one entry more than is left in the end is
enough to go on from (`take_filter_take`). The list is therefore the beginning of all the different
paths that were ever remembered, the last one first (`recentWorkspaces_foldl_remember`).
-/

namespace ScriptedNotes

namespace Path

variable {p q : Path}

lemma same_iff : p.same q = true ↔ p.parts = q.parts :=
  beq_iff_eq

lemma same_eq_false_iff : p.same q = false ↔ p.parts ≠ q.parts :=
  beq_eq_false_iff_ne

/-- Paths of which no two are the same. -/
abbrev AllDifferent (paths : List Path) : Prop :=
  paths.Pairwise fun p q => p.same q = false

/-- Of different paths at most one is the same as another path. -/
lemma length_le_of_allDifferent {paths : List Path} (h : AllDifferent paths) (p : Path) :
    paths.length ≤ (paths.filter (!·.same p)).length + 1 := by
  induction paths with
  | nil => exact Nat.zero_le _
  | cons q rest ih =>
    obtain ⟨hq, hrest⟩ := List.pairwise_cons.1 h
    cases hsame : q.same p with
    | false =>
      have hlength := ih hrest
      rw [List.filter_cons_of_pos (by simp [hsame]), List.length_cons, List.length_cons]
      omega
    | true =>
      -- what is not the same as `q` is not the same as `p` either
      have hall : ∀ r ∈ rest, (!r.same p) = true := by
        intro r hr
        rw [Bool.not_eq_true', same_eq_false_iff, ← same_iff.1 hsame]
        exact (same_eq_false_iff.1 (hq r hr)).symm
      rw [List.filter_cons_of_neg (by simp [hsame]), List.filter_eq_self.2 hall, List.length_cons]

/-- One entry more than is left in the end is enough to take a path out of different ones. -/
lemma take_filter_take {paths : List Path} (h : AllDifferent paths) (p : Path) (n : ℕ) :
    ((paths.take (n + 1)).filter (!·.same p)).take n = (paths.filter (!·.same p)).take n := by
  rcases Nat.lt_or_ge n paths.length with hlong | hshort
  · have hleft := length_le_of_allDifferent (h.sublist (List.take_sublist (n + 1) paths)) p
    rw [List.length_take, Nat.min_eq_left hlong] at hleft
    conv_rhs =>
      rw [← List.take_append_drop (n + 1) paths, List.filter_append,
        List.take_append_of_le_length (Nat.le_of_succ_le_succ hleft)]
  · rw [List.take_of_length_le (Nat.le_succ_of_le hshort)]

/-! ### Repetitions -/

/-- Where it hangs on the parts of a path whether it is kept, repetitions may be taken out before or
after. -/
lemma eraseDupsBy_filter {keep : Path → Bool} (hkeep : ∀ p q, p.same q = true → keep p = keep q) :
    ∀ paths : List Path,
      (paths.filter keep).eraseDupsBy same = (paths.eraseDupsBy same).filter keep
  | [] => rfl
  | p :: rest => by
    have hlength := List.length_filter_le (fun q => decide (q.same p = false)) rest
    rw [List.eraseDupsBy_cons]
    cases hp : keep p with
    | true =>
      rw [List.filter_cons_of_pos hp, List.filter_cons_of_pos hp, List.eraseDupsBy_cons,
        ← eraseDupsBy_filter hkeep, List.filter_comm]
    | false =>
      -- what is the same as `p` is not kept anyway
      have hrest : (rest.filter fun q => decide (q.same p = false)).filter keep =
          rest.filter keep := by
        rw [List.filter_filter]
        refine List.filter_congr fun q _ => ?_
        cases hq : q.same p with
        | true => simp [hkeep q p hq, hp]
        | false => simp
      rw [List.filter_cons_of_neg (by simp [hp]), List.filter_cons_of_neg (by simp [hp]),
        ← eraseDupsBy_filter hkeep, hrest]
  termination_by paths => paths.length
  decreasing_by all_goals simp only [List.length_cons]; omega

lemma eraseDupsBy_cons_same (p : Path) (paths : List Path) :
    (p :: paths).eraseDupsBy same = p :: (paths.eraseDupsBy same).filter (!·.same p) := by
  have hkeep : ∀ q r : Path, q.same r = true → (!q.same p) = !r.same p := by
    intro q r hqr
    unfold same
    rw [same_iff.1 hqr]
  rw [List.eraseDupsBy_cons, ← eraseDupsBy_filter hkeep]
  refine congrArg (fun rest => p :: List.eraseDupsBy same rest) (List.filter_congr fun q _ => ?_)
  cases q.same p <;> rfl

lemma allDifferent_eraseDupsBy (paths : List Path) : AllDifferent (paths.eraseDupsBy same) := by
  induction paths with
  | nil => exact .nil
  | cons p rest ih =>
    rw [eraseDupsBy_cons_same, AllDifferent, List.pairwise_cons]
    refine ⟨fun q hq => ?_, ih.filter _⟩
    have hdifferent := (List.mem_filter.1 hq).2
    rw [Bool.not_eq_true', same_eq_false_iff] at hdifferent
    exact same_eq_false_iff.2 hdifferent.symm

end Path

namespace Config

open ScriptedNotes.Path (AllDifferent same_iff same_eq_false_iff)

/-! ### The list -/

/-- **The workspaces of late are the different ones that were remembered**, the last one first, as
far as the list goes. -/
theorem recentWorkspaces_foldl_remember (paths : List Path) :
    (paths.foldl remember {}).recentWorkspaces =
      (paths.reverse.eraseDupsBy Path.same).take recentLimit := by
  induction paths using List.reverseRecOn with
  | nil => rfl
  | append_singleton front p ih =>
    have hdifferent := Path.allDifferent_eraseDupsBy front.reverse
    rw [List.foldl_append, List.foldl_cons, List.foldl_nil, remember, ih, List.reverse_append,
      List.reverse_singleton, List.singleton_append, Path.eraseDupsBy_cons_same]
    exact congrArg (p :: ·) (Path.take_filter_take hdifferent p 9)

/-- What was remembered last is the last workspace and stands in front. -/
lemma last_foldl_remember (paths : List Path) :
    (paths.foldl remember {}).lastWorkspace = paths.getLast? ∧
      (paths.foldl remember {}).recentWorkspaces.head? = paths.getLast? := by
  rcases List.eq_nil_or_concat paths with rfl | ⟨front, p, rfl⟩
  · exact ⟨rfl, rfl⟩
  · rw [List.concat_eq_append, List.foldl_append, List.getLast?_concat]
    exact ⟨rfl, rfl⟩

/-! ### One more workspace -/

/-- A path is put in front of the others. What it was remembered as before is taken out of them; if
it was not, the last of them is let go when the list is full. -/
inductive PutInFront (p : Path) (before : List Path) : List Path → Prop where
  | moved (front back : List Path) (q : Path) (hsame : q.same p = true)
      (hbefore : before = front ++ q :: back) : PutInFront p before (p :: (front ++ back))
  | added (hnew : ∀ q ∈ before, q.same p = false) (hroom : before.length < recentLimit) :
      PutInFront p before (p :: before)
  | replacing (front : List Path) (last : Path) (hnew : ∀ q ∈ before, q.same p = false)
      (hbefore : before = front ++ [last]) (hfull : before.length = recentLimit) :
      PutInFront p before (p :: front)

section

variable {c : Config} {p : Path}

lemma recentWorkspaces_remember (c : Config) (p : Path) :
    (c.remember p).recentWorkspaces =
      p :: (c.recentWorkspaces.filter (!·.same p)).take (recentLimit - 1) :=
  rfl

/-- A workspace that is known moves to the front. -/
lemma remember_known {q : Path} (h : AllDifferent c.recentWorkspaces)
    (hlength : c.recentWorkspaces.length ≤ recentLimit) (hq : q ∈ c.recentWorkspaces)
    (hsame : q.same p = true) :
    PutInFront p c.recentWorkspaces (c.remember p).recentWorkspaces := by
  rw [recentWorkspaces_remember]
  obtain ⟨front, back, hbefore⟩ := List.append_of_mem hq
  rw [hbefore] at h hlength ⊢
  have hothers : ∀ r ∈ front ++ back, (!r.same p) = true := by
    intro r hr
    rw [Bool.not_eq_true', same_eq_false_iff, ← same_iff.1 hsame]
    rw [AllDifferent, List.pairwise_append, List.pairwise_cons] at h
    rcases List.mem_append.1 hr with hr | hr
    · exact same_eq_false_iff.1 (h.2.2 r hr q List.mem_cons_self)
    · exact (same_eq_false_iff.1 (h.2.1.1 r hr)).symm
  rw [List.filter_append, List.filter_cons_of_neg (by simp [hsame]), ← List.filter_append,
    List.filter_eq_self.2 hothers]
  rw [List.length_append, List.length_cons] at hlength
  rw [List.take_of_length_le (by rw [List.length_append]; omega)]
  exact .moved front back q hsame rfl

/-- A workspace that is new comes in front of the others. -/
lemma remember_new (hlength : c.recentWorkspaces.length ≤ recentLimit)
    (hnew : ∀ q ∈ c.recentWorkspaces, q.same p = false) :
    PutInFront p c.recentWorkspaces (c.remember p).recentWorkspaces := by
  have hfilter : c.recentWorkspaces.filter (!·.same p) = c.recentWorkspaces :=
    List.filter_eq_self.2 fun q hq => by simp [hnew q hq]
  rw [recentWorkspaces_remember, hfilter]
  rcases Nat.lt_or_eq_of_le hlength with hroom | hfull
  · rw [List.take_of_length_le (by omega)]
    exact .added hnew hroom
  · have hne : c.recentWorkspaces ≠ [] := by
      intro hnil
      rw [hnil] at hfull
      cases hfull
    rw [← hfull, ← List.dropLast_eq_take]
    exact .replacing _ _ hnew (List.dropLast_append_getLast hne).symm hfull

end

/-- **The workspaces of late are the ten that were used last.** For all workspaces that are
remembered one after another, from the start: the list is the first ten different ones of them, read
backwards, where paths are the same that have the same parts; no two in it are the same, it has at
most ten entries, and its first is the last workspace. And whenever ten or fewer different
workspaces are known, the next is put in front of the others, which keep their order; its own
earlier entry goes, or else the last one of ten. -/
theorem recent_are_last_used :
    (∀ paths : List Path,
      (paths.foldl remember {}).recentWorkspaces =
        (paths.reverse.eraseDupsBy fun p q => p.parts == q.parts).take 10 ∧
      AllDifferent (paths.foldl remember {}).recentWorkspaces ∧
      (paths.foldl remember {}).recentWorkspaces.length ≤ 10 ∧
      (paths.foldl remember {}).lastWorkspace = paths.getLast? ∧
      (paths.foldl remember {}).recentWorkspaces.head? =
        (paths.foldl remember {}).lastWorkspace) ∧
    ∀ (c : Config) (p : Path), AllDifferent c.recentWorkspaces → c.recentWorkspaces.length ≤ 10 →
      PutInFront p c.recentWorkspaces (c.remember p).recentWorkspaces ∧
        (c.remember p).lastWorkspace = some p := by
  refine ⟨fun paths => ?_, fun c p h hlength => ⟨?_, rfl⟩⟩
  · have hlist := recentWorkspaces_foldl_remember paths
    obtain ⟨hlast, hhead⟩ := last_foldl_remember paths
    refine ⟨hlist, ?_, ?_, hlast, hhead.trans hlast.symm⟩
    · rw [hlist]
      exact (Path.allDifferent_eraseDupsBy _).sublist (List.take_sublist _ _)
    · rw [hlist]
      exact List.length_take_le _ _
  · by_cases hknown : ∃ q ∈ c.recentWorkspaces, q.same p = true
    · obtain ⟨q, hq, hsame⟩ := hknown
      exact remember_known h hlength hq hsame
    · refine remember_new hlength fun q hq => ?_
      rw [← Bool.not_eq_true]
      exact fun hsame => hknown ⟨q, hq, hsame⟩

section

/-- A configuration after eleven workspaces, of which it has let the first go. -/
private def eleven : Config :=
  ["/a", "/b", "/c", "/d", "/e", "/f", "/g", "/h", "/i", "/j", "/k"].foldl (remember · ⟨·⟩) {}

/-- The first one comes back and takes the place of the second, and another spelling of one that is
known moves it to the front. -/
theorem recent_are_last_used_eleven :
    AllDifferent eleven.recentWorkspaces ∧ eleven.recentWorkspaces.length = 10 ∧
      PutInFront ⟨"/a"⟩ eleven.recentWorkspaces (eleven.remember ⟨"/a"⟩).recentWorkspaces ∧
      (eleven.remember ⟨"/a"⟩).recentWorkspaces.getLast? = some ⟨"/c"⟩ ∧
      PutInFront ⟨"/c/."⟩ eleven.recentWorkspaces (eleven.remember ⟨"/c/."⟩).recentWorkspaces ∧
      (eleven.remember ⟨"/c/."⟩).recentWorkspaces.getLast? = some ⟨"/b"⟩ := by
  have hdifferent : AllDifferent eleven.recentWorkspaces := by decide +kernel
  have hlength : eleven.recentWorkspaces.length = 10 := by decide +kernel
  have hput := fun p => (recent_are_last_used.2 eleven p hdifferent hlength.le).1
  exact ⟨hdifferent, hlength, hput _, by decide +kernel, hput _, by decide +kernel⟩

end

end Config

end ScriptedNotes
