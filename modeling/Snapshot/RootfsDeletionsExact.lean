import Snapshot.CheckedFold
import Snapshot.RootfsDeletions

/-! What is removed from a restored root, and when this is what the upper directory says was deleted.
The recorded strings are read back as paths: the directory of a whiteout and the rest of its name. A
rest that is empty or only dots does not name an entry of that directory, and a root that is `/`
contains no path by its prefix test. -/
namespace RootfsDeletions

open LexicalPath

variable {γ : Type}

/-! ## Records -/

/-- An upper directory, under the name by which it is walked. -/
structure UpperDir (γ : Type) where
  path : Bytes
  nonempty : path ≠ []
  tree : FileTree γ

/-- A whiteout: the directory it lies in, and its name without the prefix. -/
structure Record where
  dir : Path
  name : Bytes
  deriving DecidableEq

def Record.ofName (dir : Path) (name : Bytes) : Option Record :=
  if hasPrefix name whiteoutPrefix then some ⟨dir, trimPrefix name whiteoutPrefix⟩ else none

/-- The whiteouts that an upper directory contains. -/
def UpperDir.whiteouts (u : UpperDir γ) : List Record :=
  u.tree.paths.filterMap fun p => Record.ofName p.dropLast (p.getLast?.getD [])

/-- All whiteouts that are recorded. The walk also looks at the name of the upper directory. -/
def UpperDir.records (u : UpperDir γ) : List Record :=
  (Record.ofName [] (base u.path)).toList ++ u.whiteouts

/-- The recorded string. -/
def Record.text (w : Record) : Bytes := if w.dir = [] then w.name else join (render false w.dir) w.name

/-- An empty string is passed over. -/
def Record.silent (w : Record) : Prop := w.dir = [] ∧ w.name = []

instance (w : Record) : Decidable w.silent := inferInstanceAs (Decidable (_ ∧ _))

/-- Where a record points, from the root it is applied to. -/
def Record.points (w : Record) : Path := (reduce false (w.dir ++ [w.name])).map Utf8.coerce

/-- The directory consists of names, and the rest of a name is part of one. -/
structure Record.Proper (w : Record) : Prop where
  dir : ∀ c ∈ w.dir, IsName c
  name : sep ∉ w.name

theorem sep_not_mem_trimPrefix {s start : Bytes} (h : sep ∉ s) : sep ∉ trimPrefix s start := by
  rw [trimPrefix]
  split
  · exact fun hmem => h (List.mem_of_mem_drop hmem)
  · exact h

theorem proper_ofName {dir : Path} {name : Bytes} {w : Record} (hdir : ∀ c ∈ dir, IsName c)
    (hname : name ≠ [sep] → sep ∉ name) (h : Record.ofName dir name = some w) : w.Proper := by
  rw [Record.ofName] at h
  split at h
  · rename_i hstart
    cases h
    refine ⟨hdir, sep_not_mem_trimPrefix (hname ?_)⟩
    rintro rfl
    exact absurd hstart (by decide)
  · cases h

theorem proper_whiteout {u : UpperDir γ} {w : Record} (hw : w ∈ u.whiteouts) : w.Proper := by
  obtain ⟨p, hp, hofName⟩ := List.mem_filterMap.1 hw
  obtain ⟨hne, hnode⟩ := FileTree.mem_paths.1 hp
  have hnames := FileTree.isName_of_node hnode
  refine proper_ofName (fun c hc => hnames c (List.dropLast_subset _ hc)) (fun _ => ?_) hofName
  rw [List.getLast?_eq_some_getLast hne, Option.getD_some]
  exact (hnames _ (List.getLast_mem hne)).2.2.2

theorem proper_record {u : UpperDir γ} {w : Record} (hw : w ∈ u.records) : w.Proper := by
  rcases List.mem_append.1 hw with hw | hw
  · exact proper_ofName (fun _ h => absurd h List.not_mem_nil) sep_not_mem_base (by simpa using hw)
  · exact proper_whiteout hw

/-- A visited entry at a path below the upper directory. -/
theorem deletedPath_eq {a path name : Bytes} {p : Path} (hroot : rooted path = rooted a)
    (hcomps : comps path = comps a ++ p) (hp : ∀ c ∈ p, IsName c) :
    deletedPath a ⟨path, name⟩ = .ok ((Record.ofName p.dropLast name).map Record.text) := by
  rw [deletedPath, Record.ofName]
  split
  · rename_i hstart
    have hdir : dir (render false p) = render false p.dropLast := by
      by_cases hne : p = []
      · subst hne
        rfl
      · have hlast := List.dropLast_concat_getLast hne
        have hinit : ∀ c ∈ p.dropLast, IsName c := fun c hc => hp c (List.dropLast_subset _ hc)
        have h := dir_render hinit (hp _ (List.getLast_mem hne))
        rwa [hlast] at h
    have hdot : render false p.dropLast = dot ↔ p.dropLast = [] := by
      refine render_eq_dot fun c hc => ?_
      have := hp c (List.dropLast_subset _ hc)
      exact ⟨this.2.1, this.2.2.2⟩
    rw [rel_eq hroot hcomps]
    simp only [hdir, ne_eq, hdot, ite_not, Option.map_some, Record.text]
  · rfl

theorem findWhiteoutFiles_eq (u : UpperDir γ) :
    findWhiteoutFiles u.path u.tree = .ok (u.records.map Record.text) := by
  have hown : deletedPath u.path ⟨u.path, base u.path⟩ =
      .ok ((Record.ofName [] (base u.path)).map Record.text) :=
    deletedPath_eq (p := []) rfl (List.append_nil _).symm fun _ h => absurd h List.not_mem_nil
  have hentry : ∀ p ∈ u.tree.paths,
      (deletedPath u.path ∘ fun p : Path => ⟨p.foldl join u.path, p.getLast?.getD []⟩) p =
        .ok ((Record.ofName p.dropLast (p.getLast?.getD [])).map Record.text) := by
    intro p hp
    have hnames := FileTree.isName_of_node (FileTree.mem_paths.1 hp).2
    obtain ⟨hroot, hcomps⟩ := foldl_join u.nonempty hnames
    exact deletedPath_eq hroot hcomps hnames
  rw [findWhiteoutFiles, walk, List.mapM_cons, hown, List.mapM_map, CheckedFold.mapM_eq_ok hentry]
  change Except.ok _ = _
  rw [Except.ok.injEq, UpperDir.records, UpperDir.whiteouts, List.map_append, List.map_filterMap]
  cases Record.ofName [] (base u.path) <;> simp [List.reduceOption, List.filterMap_map]

/-! ## Recorded strings -/

theorem coerce_intercalate (p : Path) :
    Utf8.coerce ([sep].intercalate p) = [sep].intercalate (p.map Utf8.coerce) := by
  induction p with
  | nil => rfl
  | cons c p ih =>
    by_cases hne : p = []
    · subst hne
      simp [List.intercalate_singleton]
    · rw [List.map_cons, List.intercalate_cons_of_ne_nil hne,
        List.intercalate_cons_of_ne_nil (by simpa using hne), List.append_assoc, List.append_assoc,
        List.singleton_append, List.singleton_append, Utf8.coerce_append _ _ (by decide), ih]

theorem coerce_render (p : Path) : Utf8.coerce (render false p) = render false (p.map Utf8.coerce) := by
  rw [render, if_neg Bool.false_ne_true, render, if_neg Bool.false_ne_true]
  by_cases hne : p = []
  · subst hne
    decide
  · rw [if_neg hne, if_neg (by simpa using hne), coerce_intercalate]

/-- An ASCII string comes only from itself. -/
theorem coerce_ne {c s : Bytes} (hs : ∀ b ∈ s, Utf8.ascii b = true) (h : c ≠ s) : Utf8.coerce c ≠ s := by
  rintro rfl
  exact h (Utf8.eq_of_coerce_ascii hs).symm

theorem isName_coerce {c : Bytes} (h : IsName c) : IsName (Utf8.coerce c) :=
  ⟨coerce_ne (by simp) h.1, coerce_ne (by simp [dot, Utf8.ascii]) h.2.1,
    coerce_ne (by simp [dotdot, Utf8.ascii]) h.2.2.1, Utf8.not_mem_coerce (by decide) h.2.2.2⟩

section Record

variable {w : Record}

theorem text_eq (hw : w.Proper) (hloud : ¬ w.silent) :
    w.text = render false (reduce false (w.dir ++ [w.name])) := by
  rw [Record.text, reduce, follow_append, follow_names hw.dir, List.nil_append, follow_singleton]
  split
  · rename_i hdir
    have hne : w.name ≠ [] := fun hname => hloud ⟨hdir, hname⟩
    rw [hdir]
    by_cases hdot : w.name = dot
    · rw [hdot, push_skip (.inr rfl)]
      rfl
    · have hpush : push false [] w.name = [w.name] := by
        by_cases hup : w.name = dotdot
        · rw [hup]
          rfl
        · exact push_name hne hdot hup
      rw [hpush, render, if_neg Bool.false_ne_true, if_neg (List.cons_ne_nil _ _),
        List.intercalate_singleton]
  · rename_i hdir
    have hne : ∀ c ∈ w.dir, c ≠ [] ∧ sep ∉ c := fun c hc => ⟨(hw.dir c hc).1, (hw.dir c hc).2.2.2⟩
    have hcomps : comps (render false w.dir) = w.dir := by
      rw [comps, rooted_render false hne, reduce, follow_split_render false fun c hc => (hne c hc).2,
        follow_names hw.dir, List.nil_append]
    have hrender : render false w.dir ≠ [] := render_false_ne_nil fun c hc => (hne c hc).1
    rw [join_eq hrender, clean, ← comps_clean, ← join_eq hrender, comps_join hrender,
      rooted_append hrender, rooted_render false hne, hcomps, split_of_not_mem hw.name,
      follow_singleton]

/-- A record points up, or it points to names. -/
theorem points_cases (hw : w.Proper) : w.points = [dotdot] ∨ ∀ c ∈ w.points, IsName c := by
  have hmap : ∀ {p : Path}, (∀ c ∈ p, IsName c) → ∀ c ∈ p.map Utf8.coerce, IsName c := by
    intro p hp c hc
    obtain ⟨c, hmem, rfl⟩ := List.mem_map.1 hc
    exact isName_coerce (hp c hmem)
  rw [Record.points, reduce, follow_append, follow_names hw.dir, List.nil_append, follow_singleton]
  by_cases hskip : w.name = [] ∨ w.name = dot
  · rw [push_skip hskip]
    exact .inr (hmap hw.dir)
  · rw [not_or] at hskip
    by_cases hup : w.name = dotdot
    · rw [hup, push_dotdot]
      split
      · left
        decide
      · split
        · rename_i hlast
          exact absurd rfl (hw.dir dotdot (List.mem_of_getLast? hlast)).2.2.1
        · exact .inr (hmap fun c hc => hw.dir c (List.dropLast_subset _ hc))
    · rw [push_name hskip.1 hskip.2 hup]
      refine .inr (hmap fun c hc => ?_)
      rcases List.mem_append.1 hc with hc | hc
      · exact hw.dir c hc
      · rw [List.mem_singleton.1 hc]
        exact ⟨hskip.1, hskip.2, hup, hw.name⟩

theorem mem_points (hw : w.Proper) : ∀ c ∈ w.points, c ≠ [] ∧ sep ∉ c := by
  rcases points_cases hw with h | h
  · rw [h]
    decide
  · exact fun c hc => ⟨(h c hc).1, (h c hc).2.2.2⟩

theorem coerce_text (hw : w.Proper) (hloud : ¬ w.silent) : Utf8.coerce w.text = render false w.points := by
  rw [text_eq hw hloud, coerce_render, Record.points]

end Record

/-! ## One deletion -/

/-- What `RemoveAll` does at a path, by the components of the cleaned name it is given. -/
inductive Effect where
  | nothing | contents | subtree
  deriving DecidableEq

def effect (root : Bool) (p : Path) : Effect :=
  if p = [] then if root then .contents else .nothing
  else if p.getLast? = some dotdot then .contents
  else .subtree

def Effect.Reaches (q x : Path) : Effect → Prop
  | nothing => False
  | contents => q <+: x ∧ x ≠ q
  | subtree => q <+: x

instance (q x : Path) (e : Effect) : Decidable (e.Reaches q x) := by
  cases e <;> rw [Effect.Reaches] <;> infer_instance

theorem Effect.Reaches.isPrefix {q x : Path} {e : Effect} (h : e.Reaches q x) : q <+: x := by
  cases e with
  | nothing => exact h.elim
  | contents => exact h.1
  | subtree => exact h

theorem Effect.Reaches.mono {q x y : Path} {e : Effect} (hxy : x <+: y) (h : e.Reaches q x) :
    e.Reaches q y := by
  cases e with
  | nothing => exact h
  | contents =>
    refine ⟨h.1.trans hxy, ?_⟩
    rintro rfl
    exact h.2 (hxy.eq_of_length_le h.1.length_le)
  | subtree => exact List.IsPrefix.trans h hxy

/-- What a record removes from the target root `R` at `r`. -/
def Record.Hits (R : Bytes) (r : Path) (w : Record) (x : Path) : Prop :=
  ¬ w.silent ∧ x ≠ [] ∧
    if w.points = [] then (effect (rooted R) (comps R)).Reaches r x
    else if w.points = [dotdot] then r = []
    else r ≠ [] ∧ r ++ w.points <+: x

instance (R : Bytes) (r : Path) (w : Record) (x : Path) : Decidable (w.Hits R r x) := by
  rw [Record.Hits]
  infer_instance

theorem endsWithDot_render {b : Bool} {p : Path} (hp : ∀ c ∈ p, c ≠ dot ∧ sep ∉ c) :
    endsWithDot (render b p) = true ↔ b = false ∧ p = [] := by
  have hsep : ∀ c ∈ p, sep ∉ c := fun c hc => (hp c hc).2
  rw [endsWithDot, Bool.or_eq_true, decide_eq_true_eq, List.isSuffixOf_iff_suffix]
  constructor
  · intro h
    by_cases hne : p = []
    · subst hne
      cases b with
      | false => exact ⟨rfl, rfl⟩
      | true => exact absurd h (by decide)
    · -- the last component would be a dot
      have hlast := getLast?_split_render b hsep hne
      have hdot : (split (render b p)).getLast? = some dot := by
        rcases h with h | ⟨s, h⟩
        · rw [h]
          decide
        · have hsplit : split dot = [dot] := split_of_not_mem (by decide)
          rw [← h, show [sep, 46] = sep :: dot from rfl, split_append, hsplit, List.getLast?_concat]
      rw [hlast] at hdot
      exact absurd rfl (hp dot (List.mem_of_getLast? hdot)).1
  · rintro ⟨rfl, rfl⟩
    exact .inl rfl

theorem node_remove_reaches {t : FileTree γ} {e : Effect} (he : e ≠ .nothing) (q x : Path) :
    (t.remove (e = .contents) q).node x = if x ≠ [] ∧ e.Reaches q x then none else t.node x := by
  rw [FileTree.node_remove]
  refine if_congr ?_ rfl rfl
  rw [FileTree.taken_iff]
  cases e with
  | nothing => exact absurd rfl he
  | contents =>
    simp only [decide_true, true_and, Effect.Reaches]
    tauto
  | subtree =>
    simp only [reduceCtorEq, decide_false, Bool.false_eq_true, false_and, not_false_eq_true,
      true_and, Effect.Reaches]
    tauto

theorem node_removeAll (h : Host γ) {s : Bytes} (hs : clean s = s) (x : Path) :
    (h.removeAll s).tree.node x =
      if x ≠ [] ∧ (effect (rooted s) (comps s)).Reaches (resolve h.cwd s) x then none
      else h.tree.node x := by
  have hcomps : ∀ c ∈ comps s, c ≠ dot ∧ sep ∉ c := fun c hc => (mem_comps hc).2
  have hdot := endsWithDot_render (b := rooted s) hcomps
  rw [← clean, hs] at hdot
  rw [Host.removeAll]
  split
  · rename_i h
    obtain ⟨hroot, hnil⟩ := hdot.1 h
    rw [effect, if_pos hnil, hroot]
    simp [Effect.Reaches]
  · rename_i hnot
    have heffect : effect (rooted s) (comps s) ≠ .nothing ∧
        (s = [sep] || (split s).getLast? = some dotdot) =
          decide (effect (rooted s) (comps s) = .contents) := by
      by_cases hnil : comps s = []
      · have hroot : rooted s = true := by
          by_contra hroot
          exact hnot (hdot.2 ⟨by simpa using hroot, hnil⟩)
        have hsep : s = [sep] := by
          rw [← hs, clean, hroot, hnil]
          rfl
        rw [effect, if_pos hnil, hroot]
        simp [hsep]
      · have hsep : s ≠ [sep] := by
          rintro rfl
          exact hnil (by decide)
        have hlast : (split s).getLast? = (comps s).getLast? := by
          have h := getLast?_split_render (rooted s) (fun c hc => (hcomps c hc).2) hnil
          rwa [← clean, hs] at h
        rw [effect, if_neg hnil, hlast]
        by_cases hup : (comps s).getLast? = some dotdot
        · simp [hup]
        · simp [hup, hsep]
    rw [heffect.2]
    exact node_remove_reaches heffect.1 _ x

section Step

variable {h : Host γ} {R : Bytes} {w : Record}

/-- The root contains a path: it is the path, or a prefix of it and not `/`. -/
def Contains (r q : Path) : Prop := q = r ∨ (r ≠ [] ∧ r <+: q)

instance (r q : Path) : Decidable (Contains r q) := inferInstanceAs (Decidable (_ ∨ _))

theorem contains_iff {r q : Path} (hr : ∀ c ∈ r, IsName c) (hq : ∀ c ∈ q, IsName c) :
    ¬ (render true q ≠ render true r ∧ ¬ hasPrefix (render true q) (render true r ++ [sep])) ↔
      Contains r q := by
  rw [not_and, not_not, hasPrefix, List.isPrefixOf_iff_prefix, prefix_render hr hq, Contains]
  constructor
  · intro himp
    by_cases heq : q = r
    · exact .inl heq
    · obtain ⟨hne, hinitial, _⟩ := himp fun h => heq (render_true_injective hq hr h)
      exact .inr ⟨hne, hinitial⟩
  · rintro (rfl | ⟨hne, hinitial⟩) hdiff
    · exact absurd rfl hdiff
    · exact ⟨hne, hinitial, fun heq => hdiff (by rw [heq])⟩

theorem located_iff : h.located = true ↔ h.tree.node h.cwd = some .directory := by
  rw [Host.located]
  split
  · rename_i hnode
    simp [hnode]
  · rename_i hnot
    exact ⟨nofun, fun hnode => absurd hnode hnot⟩

/-- Where a relative root leads if nothing is left of it but going up. -/
theorem effect_up (hr : resolve h.cwd R = []) :
    effect (rooted R) (follow (rooted R) (comps R) [dotdot]) = .contents := by
  rw [follow_singleton, push_dotdot]
  cases hroot : rooted R with
  | true =>
    have hcomps : comps R = [] := by
      rw [comps, hroot]
      rw [resolve, hroot] at hr
      exact hr
    rw [if_pos hcomps]
    rfl
  | false =>
    by_cases hnil : comps R = []
    · rw [if_pos hnil]
      decide
    · rw [if_neg hnil, if_pos, effect, if_neg (by simp), if_pos (by simp)]
      -- a last component that is a name would be the last one of the place it leads to
      by_contra hlast
      obtain ⟨init, last, hinit⟩ : ∃ init last, comps R = init ++ [last] :=
        ⟨_, _, (List.dropLast_concat_getLast hnil).symm⟩
      have hmem := mem_comps (s := R) (c := last) (by simp [hinit])
      rw [hinit, List.getLast?_concat, Option.some.injEq] at hlast
      rw [← resolve_clean, resolve, rooted_clean, hroot, follow_split_clean, hinit, follow_append,
        follow_singleton, push_name hmem.1 hmem.2.1 hlast] at hr
      simp at hr

/-- A deletion by the components of its target. -/
theorem hits_iff (hw : w.Proper) (hloud : ¬ w.silent) (hr : ∀ c ∈ resolve h.cwd R, IsName c) (x : Path) :
    Contains (resolve h.cwd R) (follow true (resolve h.cwd R) w.points) ∧ x ≠ [] ∧
        (effect (rooted R) (follow (rooted R) (comps R) w.points)).Reaches
          (follow true (resolve h.cwd R) w.points) x ↔
      w.Hits R (resolve h.cwd R) x := by
  have hcases := points_cases hw
  have hup := effect_up (h := h) (R := R)
  rw [Record.Hits, and_iff_right hloud]
  generalize w.points = q at hcases
  generalize resolve h.cwd R = r at hr hup
  by_cases hnil : q = []
  · subst hnil
    rw [if_pos rfl]
    exact and_iff_right (.inl rfl)
  · rw [if_neg hnil]
    by_cases hdotdot : q = [dotdot]
    · subst hdotdot
      rw [if_pos rfl]
      by_cases hr0 : r = []
      · subst hr0
        rw [hup rfl]
        simp [Contains, follow, push_dotdot, Effect.Reaches]
      · -- above the root nothing is contained in it
        have hlast : r.getLast? ≠ some dotdot := fun hlast =>
          (hr dotdot (List.mem_of_getLast? hlast)).2.2.1 rfl
        have hnot : ¬ Contains r (follow true r [dotdot]) := by
          rw [follow_singleton, push_dotdot, if_neg hr0, if_neg hlast]
          have hpos := List.length_pos_iff.2 hr0
          rintro (heq | ⟨_, hinitial⟩)
          · have hlen := congrArg List.length heq
            rw [List.length_dropLast] at hlen
            omega
          · have hlen := hinitial.length_le
            rw [List.length_dropLast] at hlen
            omega
        simp [hnot, hr0]
    · rw [if_neg hdotdot]
      have hnames : ∀ c ∈ q, IsName c := hcases.resolve_left hdotdot
      have hlast : (comps R ++ q).getLast? ≠ some dotdot := by
        rw [List.getLast?_append_of_ne_nil _ hnil]
        exact fun hlast => (hnames dotdot (List.mem_of_getLast? hlast)).2.2.1 rfl
      rw [follow_names hnames, follow_names hnames, effect, if_neg (by simp [hnil]), if_neg hlast]
      constructor
      · rintro ⟨heq | ⟨hr0, _⟩, hx, hreach⟩
        · exact absurd (List.append_right_eq_self.1 heq) hnil
        · exact ⟨hx, hr0, hreach⟩
      · rintro ⟨hx, hr0, hinitial⟩
        exact ⟨.inr ⟨hr0, List.prefix_append _ _⟩, hx, hinitial⟩

/-- One recorded string, while a relative root can be located. -/
theorem node_applyDeletedFile (hw : w.Proper) (hcwd : ∀ c ∈ h.cwd, IsName c)
    (habs : (rooted R || h.located) = true) (x : Path) :
    (applyDeletedFile R (render true (resolve h.cwd R)) h (Utf8.coerce w.text)).tree.node x =
      if w.Hits R (resolve h.cwd R) x then none else h.tree.node x := by
  by_cases hloud : w.silent
  · rw [if_neg fun hhits => hhits.1 hloud, Record.text, if_pos hloud.1, hloud.2]
    rfl
  · have hpoints := mem_points hw
    have hrooted : rooted (render false w.points) = false := rooted_render false hpoints
    have hne : render false w.points ≠ [] := render_false_ne_nil fun c hc => (hpoints c hc).1
    have hr : ∀ c ∈ resolve h.cwd R, IsName c := fun c => isName_of_mem_resolve hcwd
    have hresolve : resolve h.cwd (join R (render false w.points)) =
        follow true (resolve h.cwd R) w.points := by
      rw [resolve_join _ _ hrooted, follow_split_render false fun c hc => (hpoints c hc).2]
    have hq : ∀ c ∈ follow true (resolve h.cwd R) w.points, IsName c := by
      rw [← hresolve]
      exact fun c => isName_of_mem_resolve hcwd
    rw [coerce_text hw hloud, applyDeletedFile, if_neg hne]
    simp only [Host.abs, rooted_join_render R hpoints, habs, if_true, abs_eq hcwd, hresolve, Host.stat]
    rw [if_congr (hits_iff hw hloud hr x).symm rfl rfl]
    split
    · rename_i hout
      rw [if_neg fun hin => (contains_iff hr hq).2 hin.1 hout]
    · rename_i hin
      rw [contains_iff hr hq] at hin
      split
      · -- nothing is there, and nothing below it
        rename_i hnone
        split
        · rename_i hreach
          by_contra hsome
          exact FileTree.node_of_prefix hreach.2.2.isPrefix hsome hnone
        · rfl
      · rw [node_removeAll _ (clean_join R hne), rooted_join_render R hpoints,
          comps_join_render R hpoints, hresolve]
        exact if_congr (by simp [hin]) rfl rfl

theorem cwd_applyDeletedFile (a f : Bytes) : (applyDeletedFile R a h f).cwd = h.cwd := by
  rw [applyDeletedFile]
  split
  · rfl
  · dsimp only
    split
    · rfl
    · split
      · rfl
      · split
        · rfl
        · rw [Host.removeAll]
          split <;> rfl

/-- Once the working directory is gone, a relative root is not found again. -/
theorem applyDeletedFile_lost (hw : w.Proper) (hlost : (rooted R || h.located) = false) (a : Bytes) :
    applyDeletedFile R a h (Utf8.coerce w.text) = h := by
  by_cases hloud : w.silent
  · rw [Record.text, if_pos hloud.1, hloud.2]
    rfl
  · rw [coerce_text hw hloud, applyDeletedFile]
    simp only [Host.abs, rooted_join_render R (mem_points hw), hlost]
    split <;> rfl

end Step

/-! ## All deletions -/

/-- The records that are applied. A relative root is looked up for each of them, which ends when the
working directory is removed. -/
def effective (R : Bytes) (r cwd : Path) : List Record → List Record
  | [] => []
  | w :: ws => w :: if rooted R = false ∧ w.Hits R r cwd then [] else effective R r cwd ws

/-- Application to a list of strings. -/
def applied (R : Bytes) (h : Host γ) (ws : List Record) : Host γ :=
  (ws.map fun w => Utf8.coerce w.text).foldl (applyDeletedFile R (render true (resolve h.cwd R))) h

theorem applied_lost {R : Bytes} {h : Host γ} {ws : List Record} (hws : ∀ w ∈ ws, w.Proper)
    (hlost : (rooted R || h.located) = false) : applied R h ws = h := by
  rw [applied]
  induction ws with
  | nil => rfl
  | cons w ws ih =>
    rw [List.map_cons, List.foldl_cons, applyDeletedFile_lost (hws w List.mem_cons_self) hlost]
    exact ih fun w hw => hws w (List.mem_cons_of_mem _ hw)

theorem node_applied {R : Bytes} {h : Host γ} {ws : List Record} (hws : ∀ w ∈ ws, w.Proper)
    (hcwd : ∀ c ∈ h.cwd, IsName c) (habs : (rooted R || h.located) = true) (x : Path) :
    (applied R h ws).tree.node x =
      if ∃ w ∈ effective R (resolve h.cwd R) h.cwd ws, w.Hits R (resolve h.cwd R) x then none
      else h.tree.node x := by
  induction ws generalizing h with
  | nil => simp [applied, effective]
  | cons w ws ih =>
    have hrest : ∀ w ∈ ws, w.Proper := fun w hw => hws w (List.mem_cons_of_mem _ hw)
    have hstep := node_applyDeletedFile (hws w List.mem_cons_self) hcwd habs
    have happlied : applied R h (w :: ws) =
        applied R (applyDeletedFile R (render true (resolve h.cwd R)) h (Utf8.coerce w.text)) ws := by
      rw [applied, applied, cwd_applyDeletedFile, List.map_cons, List.foldl_cons]
    have hsame : (applyDeletedFile R (render true (resolve h.cwd R)) h (Utf8.coerce w.text)).cwd = h.cwd :=
      cwd_applyDeletedFile _ _
    rw [happlied, effective]
    generalize applyDeletedFile R (render true (resolve h.cwd R)) h (Utf8.coerce w.text) = h' at hstep hsame
    -- the working directory is found again unless this record has removed it
    have hlost : (rooted R || h'.located) = false ↔ rooted R = false ∧ w.Hits R (resolve h.cwd R) h.cwd := by
      rw [Bool.or_eq_false_iff]
      refine and_congr_right fun hrel => ?_
      rw [← Bool.not_eq_true, located_iff, hsame, hstep]
      rw [hrel, Bool.false_or, located_iff] at habs
      split <;> simp_all
    split
    · rename_i hgone
      rw [applied_lost hrest (hlost.2 hgone), hstep]
      exact if_congr (by simp) rfl rfl
    · rename_i hstands
      have habs' : (rooted R || h'.located) = true := by
        rw [← Bool.not_eq_false]
        exact fun hf => hstands (hlost.1 hf)
      rw [ih hrest (by rw [hsame]; exact hcwd) habs', hsame, hstep]
      by_cases hhit : w.Hits R (resolve h.cwd R) x <;> simp [hhit]

/-! ## Exactness -/

/-- A process whose working directory exists. -/
structure StandingHost (γ : Type) extends Host γ where
  stands : toHost.located = true

variable {δ : Type}

/-- Capture into a new checkpoint, and its application. -/
def restoreDeletions (u : UpperDir γ) (R : Bytes) (h : Host δ) : Option (Host δ) :=
  match captureDeletedFiles u.path u.tree ⟨none⟩ with
  | .error _ => none
  | .ok (_, c) => (applyDeletedFiles c R h).toOption

theorem restoreDeletions_eq (u : UpperDir γ) (R : Bytes) (h : StandingHost δ) :
    restoreDeletions u R h.toHost = some (applied R h.toHost u.records) := by
  have hcwd : ∀ c ∈ h.cwd, IsName c :=
    FileTree.isName_of_node (by rw [located_iff.1 h.stands]; exact nofun)
  rw [restoreDeletions, captureDeletedFiles, if_neg u.nonempty, findWhiteoutFiles_eq]
  by_cases hnil : u.records = []
  · rw [hnil]
    rfl
  · have hne : u.records.map Record.text ≠ [] := by simpa using hnil
    have habs : h.toHost.abs R = some (render true (resolve h.cwd R)) := by
      rw [Host.abs, h.stands, Bool.or_true, if_pos rfl, abs_eq hcwd]
    simp only [bind, Except.bind, pure, Except.pure, if_neg hne, applyDeletedFiles, habs, applied,
      List.map_map]
    rfl

/-- The deleted paths, as the upper directory says. -/
def Deleted (u : UpperDir γ) (p : Path) : Prop :=
  ∃ d n, p = d ++ [n] ∧ n ≠ [] ∧ n ≠ dot ∧ n ≠ dotdot ∧ u.tree.node (d ++ [whiteoutPrefix ++ n]) ≠ none

/-- A path at or below a deleted one, in the target root. -/
def Claimed (u : UpperDir γ) (r x : Path) : Prop := ∃ p, Deleted u p ∧ r ++ p <+: x

/-- Under the target root, exactly what is claimed is gone. -/
def Exact (u : UpperDir γ) (r : Path) (before after : FileTree δ) : Prop :=
  ∀ x, r <+: x → (Claimed u r x → after.node x = none) ∧ (¬ Claimed u r x → after.node x = before.node x)

/-- The rest of the name is a name. -/
def Record.Named (w : Record) : Prop := w.name ≠ [] ∧ w.name ≠ dot ∧ w.name ≠ dotdot

def Record.path (w : Record) : Path := w.dir ++ [w.name]

theorem mem_whiteouts {u : UpperDir γ} {w : Record} :
    w ∈ u.whiteouts ↔ u.tree.node (w.dir ++ [whiteoutPrefix ++ w.name]) ≠ none := by
  rw [UpperDir.whiteouts, List.mem_filterMap]
  constructor
  · rintro ⟨p, hp, hw⟩
    obtain ⟨hne, hnode⟩ := FileTree.mem_paths.1 hp
    rw [Record.ofName] at hw
    split at hw
    · rename_i hstart
      cases hw
      obtain ⟨n, hn⟩ := List.isPrefixOf_iff_prefix.1 hstart
      have htrim : trimPrefix (p.getLast?.getD []) whiteoutPrefix = n := by
        rw [trimPrefix, if_pos hstart, ← hn, List.drop_left]
      rw [htrim, hn, List.getLast?_eq_some_getLast hne, Option.getD_some,
        List.dropLast_concat_getLast hne]
      exact hnode
    · cases hw
  · intro hnode
    refine ⟨_, FileTree.mem_paths.2 ⟨by simp, hnode⟩, ?_⟩
    have hstart : hasPrefix (whiteoutPrefix ++ w.name) whiteoutPrefix = true :=
      List.isPrefixOf_iff_prefix.2 (List.prefix_append _ _)
    rw [List.dropLast_concat, List.getLast?_concat, Option.getD_some, Record.ofName, if_pos hstart,
      trimPrefix, if_pos hstart, List.drop_left]

theorem deleted_iff {u : UpperDir γ} {p : Path} :
    Deleted u p ↔ ∃ w ∈ u.whiteouts, w.Named ∧ p = w.path := by
  constructor
  · rintro ⟨d, n, rfl, hne, hdot, hup, hnode⟩
    exact ⟨⟨d, n⟩, mem_whiteouts.2 hnode, ⟨hne, hdot, hup⟩, rfl⟩
  · rintro ⟨w, hw, ⟨hne, hdot, hup⟩, rfl⟩
    exact ⟨w.dir, w.name, rfl, hne, hdot, hup, mem_whiteouts.1 hw⟩

section Faithful

variable (u : UpperDir γ) (R : Bytes) (h : Host δ)

/-- The records of an upper directory that are applied to a root. -/
def acting : List Record := effective R (resolve h.cwd R) h.cwd u.records

/-- A deleted path is not removed by its own record: the root is `/`, the path is no text, or the
application has ended before. -/
def Missed (w : Record) : Prop :=
  resolve h.cwd R = [] ∨ w.points ≠ w.path ∨ w ∉ acting u R h

/-- A record of something else than a deleted path: the name of the upper directory, a name that is
empty or dots, or a path that is no text. -/
def Stray (w : Record) : Prop := w ∉ u.whiteouts ∨ ¬ w.Named ∨ w.points ≠ w.path

/-- A path that is missed is not there, or removed otherwise; a stray record removes nothing but
what is claimed. -/
structure Faithful : Prop where
  missed : ∀ w ∈ u.whiteouts, w.Named → Missed u R h w →
    h.tree.node (resolve h.cwd R ++ w.path) ≠ none →
      ∃ v ∈ acting u R h, v.Hits R (resolve h.cwd R) (resolve h.cwd R ++ w.path)
  stray : ∀ w ∈ acting u R h, Stray u w → ∀ x, h.tree.node x ≠ none →
    w.Hits R (resolve h.cwd R) x → Claimed u (resolve h.cwd R) x

variable {u R h}

theorem hits_mono {r x y : Path} {w : Record} (hxy : x <+: y) (hx : w.Hits R r x) : w.Hits R r y := by
  obtain ⟨hloud, hne, hreach⟩ := hx
  refine ⟨hloud, fun hy => hne (List.prefix_nil.1 (hy ▸ hxy)), ?_⟩
  by_cases hnil : w.points = []
  · rw [if_pos hnil] at hreach ⊢
    exact hreach.mono hxy
  · rw [if_neg hnil] at hreach ⊢
    by_cases hup : w.points = [dotdot]
    · rw [if_pos hup] at hreach ⊢
      exact hreach
    · rw [if_neg hup] at hreach ⊢
      exact ⟨hreach.1, hreach.2.trans hxy⟩

/-- A record touches nothing outside the root. -/
theorem prefix_of_hits {r x : Path} {w : Record} (hx : w.Hits R r x) : r <+: x := by
  obtain ⟨_, _, hreach⟩ := hx
  split at hreach
  · exact hreach.isPrefix
  · split at hreach
    · rw [hreach]
      exact List.nil_prefix
    · exact (List.prefix_append _ _).trans hreach.2

theorem hits_path {r x : Path} {w : Record} (hpoints : w.points = w.path) (hnamed : w.Named) :
    w.Hits R r x ↔ r ≠ [] ∧ r ++ w.path <+: x := by
  have hnil : w.path ≠ [] := by simp [Record.path]
  have hup : w.path ≠ [dotdot] := by
    intro heq
    rw [Record.path, List.append_eq_singleton_iff] at heq
    rcases heq with ⟨_, heq⟩ | ⟨_, heq⟩
    · exact hnamed.2.2 (List.singleton_injective heq)
    · cases heq
  rw [Record.Hits, hpoints, if_neg hnil, if_neg hup]
  constructor
  · exact fun hx => hx.2.2
  · rintro ⟨hr, hinitial⟩
    refine ⟨fun hsilent => hnamed.1 hsilent.2, ?_, hr, hinitial⟩
    rintro rfl
    simp [Record.path] at hinitial

end Faithful

section Exact

variable {u : UpperDir γ} {R : Bytes} {h : StandingHost δ}

theorem node_restored (u : UpperDir γ) (R : Bytes) (h : StandingHost δ) (x : Path) :
    (applied R h.toHost u.records).tree.node x =
      if ∃ w ∈ acting u R h.toHost, w.Hits R (resolve h.cwd R) x then none else h.tree.node x :=
  node_applied (fun _ => proper_record)
    (FileTree.isName_of_node (by rw [located_iff.1 h.stands]; exact nofun))
    (by rw [h.stands, Bool.or_true]) x

theorem exact_of_faithful (hf : Faithful u R h.toHost) :
    Exact u (resolve h.cwd R) h.tree (applied R h.toHost u.records).tree := by
  intro x _
  rw [node_restored]
  constructor
  · rintro ⟨p, hp, hinitial⟩
    obtain ⟨w, hw, hnamed, rfl⟩ := deleted_iff.1 hp
    by_cases hnode : h.tree.node x = none
    · rw [hnode, ite_self]
    · refine if_pos ?_
      by_cases hmissed : Missed u R h.toHost w
      · obtain ⟨v, hv, hhits⟩ :=
          hf.missed w hw hnamed hmissed (FileTree.node_of_prefix hinitial hnode)
        exact ⟨v, hv, hits_mono hinitial hhits⟩
      · simp only [Missed, not_or, not_not] at hmissed
        obtain ⟨hr, hpoints, hacting⟩ := hmissed
        exact ⟨w, hacting, (hits_path hpoints hnamed).2 ⟨hr, hinitial⟩⟩
  · intro hnot
    split
    · rename_i hhit
      obtain ⟨w, hw, hhits⟩ := hhit
      by_contra hnode
      refine hnot ?_
      by_cases hstray : Stray u w
      · exact hf.stray w hw hstray x (fun hnone => hnode hnone.symm) hhits
      · simp only [Stray, not_or, not_not] at hstray
        obtain ⟨hmem, hnamed, hpoints⟩ := hstray
        exact ⟨w.path, deleted_iff.2 ⟨w, hmem, hnamed, rfl⟩, ((hits_path hpoints hnamed).1 hhits).2⟩
    · rfl

theorem faithful_of_exact
    (he : Exact u (resolve h.cwd R) h.tree (applied R h.toHost u.records).tree) :
    Faithful u R h.toHost where
  missed w hw hnamed _ hnode := by
    have hclaimed : Claimed u (resolve h.cwd R) (resolve h.cwd R ++ w.path) :=
      ⟨w.path, deleted_iff.2 ⟨w, hw, hnamed, rfl⟩, List.prefix_refl _⟩
    have hgone := (he _ (List.prefix_append _ _)).1 hclaimed
    rw [node_restored] at hgone
    by_contra hnot
    rw [if_neg hnot] at hgone
    exact hnode hgone
  stray w hw _ x hnode hhits := by
    by_contra hnot
    have hsame := (he x (prefix_of_hits hhits)).2 hnot
    rw [node_restored, if_pos ⟨w, hw, hhits⟩] at hsame
    exact hnode hsame.symm

/-- What was deleted before the checkpoint is deleted after it, and nothing else, exactly if no
deleted path is missed and no record strays. -/
theorem deletions_exact_iff (u : UpperDir γ) (R : Bytes) (h : StandingHost δ) :
    (∃ after, restoreDeletions u R h.toHost = some after ∧
      Exact u (resolve h.cwd R) h.tree after.tree) ↔ Faithful u R h.toHost := by
  rw [restoreDeletions_eq]
  constructor
  · rintro ⟨after, heq, he⟩
    cases heq
    exact faithful_of_exact he
  · exact fun hf => ⟨_, rfl, exact_of_faithful hf⟩

end Exact

/-! ## A whiteout and the root -/

def ascii (s : String) : Bytes := s.toList.map fun c => c.toNat.toUInt8

def sampleUpper : UpperDir Unit where
  path := ascii "/overlay/upper"
  nonempty := by decide +kernel
  tree :=
    { entries := (∅ : Std.ExtTreeMap Path (FileNode Unit)).insert [ascii ".wh.tmp"] (.file ())
      named := by decide +kernel
      closed := by decide +kernel }

def sampleHost : StandingHost Unit where
  cwd := []
  tree :=
    { entries := (∅ : Std.ExtTreeMap Path (FileNode Unit)).insert [ascii "tmp"] (.file ())
      named := by decide +kernel
      closed := by decide +kernel }
  stands := rfl

/-- The restore passes `/` as the root, and a deleted file is still there. -/
theorem deletion_in_root_skipped :
    Deleted sampleUpper [ascii "tmp"] ∧
      (restoreDeletions sampleUpper (ascii "/") sampleHost.toHost).map
        (fun after => after.tree.node [ascii "tmp"]) = some (some (.file ())) :=
  ⟨⟨[], ascii "tmp", by decide +kernel⟩, by decide +kernel⟩

end RootfsDeletions
