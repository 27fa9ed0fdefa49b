import Mathlib.Data.List.Basic
import Mathlib.Data.List.Induction

/-! Slash-separated path names as programs handle them: byte strings that are cleaned, joined and
compared without a look at the file system. A cleaned name is determined by whether it is rooted and
by its components, and every operation is described by what it does to these. -/
namespace LexicalPath

abbrev Bytes := List UInt8

abbrev Path := List Bytes

instance : LawfulBEq Bytes := inferInstance

def sep : UInt8 := 47

def dot : Bytes := [46]

def dotdot : Bytes := [46, 46]

/-- A name that a directory can hold. -/
def IsName (c : Bytes) : Prop := c ≠ [] ∧ c ≠ dot ∧ c ≠ dotdot ∧ sep ∉ c

instance (c : Bytes) : Decidable (IsName c) := inferInstanceAs (Decidable (_ ∧ _ ∧ _ ∧ _))

def split (s : Bytes) : Path := s.splitOn sep

def rooted (s : Bytes) : Bool := s.head? = some sep

/-- One more component of a name that is read from the left. -/
def push (root : Bool) (done : Path) (c : Bytes) : Path :=
  if c = [] ∨ c = dot then done
  else if c = dotdot then
    if done = [] then if root then [] else [dotdot]
    else if done.getLast? = some dotdot then done ++ [dotdot]
    else done.dropLast
  else done ++ [c]

def follow (root : Bool) (start cs : Path) : Path := cs.foldl (push root) start

def reduce (root : Bool) (cs : Path) : Path := follow root [] cs

def render (root : Bool) (p : Path) : Bytes :=
  if root then sep :: [sep].intercalate p
  else if p = [] then dot
  else [sep].intercalate p

/-- The components of a name that are left when it is cleaned. -/
def comps (s : Bytes) : Path := reduce (rooted s) (split s)

def clean (s : Bytes) : Bytes := render (rooted s) (comps s)

def join (a b : Bytes) : Bytes :=
  if a = [] then if b = [] then [] else clean b
  else clean (a ++ sep :: b)

def abs (cwd : Path) (s : Bytes) : Bytes := if rooted s then clean s else join (render true cwd) s

/-- Where a name leads from a working directory when there are no links. -/
def resolve (cwd : Path) (s : Bytes) : Path := follow true (if rooted s then [] else cwd) (split s)

/-- All but the last component. -/
def dir (s : Bytes) : Bytes := clean (s.reverse.dropWhile (· ≠ sep)).reverse

/-- The last component. -/
def base (s : Bytes) : Bytes :=
  if s = [] then dot
  else
    match (s.reverse.dropWhile (· = sep)).reverse with
    | [] => [sep]
    | c :: t => (split (c :: t)).getLast?.getD []

def stripCommon : Path → Path → Path × Path
  | b :: bs, t :: ts => if b = t then stripCommon bs ts else (b :: bs, t :: ts)
  | bs, ts => (bs, ts)

/-- A name that leads from the first to the second. -/
def rel (base targ : Bytes) : Option Bytes :=
  if rooted base ≠ rooted targ then none
  else
    let (up, down) := stripCommon (comps base) (comps targ)
    if up.head? = some dotdot then none
    else some (render false (up.map (fun _ => dotdot) ++ down))

/-! ## Components -/

theorem not_mem_of_mem_splitOn {x : UInt8} {s c : Bytes} (h : c ∈ s.splitOn x) : x ∉ c := by
  induction s generalizing c with
  | nil => simp_all
  | cons b s ih =>
    rw [List.splitOn_cons_eq_if_modifyHead] at h
    split at h
    · rcases List.mem_cons.1 h with rfl | h
      · simp
      · exact ih h
    · rename_i hb
      cases hs : s.splitOn x with
      | nil => exact absurd hs (List.splitOn_ne_nil _ _)
      | cons y ys =>
        rw [hs, List.modifyHead_cons] at h
        have hy : ∀ z ∈ y :: ys, x ∉ z := fun z hz => ih (by rw [hs]; exact hz)
        rcases List.mem_cons.1 h with rfl | h
        · have hne : x ≠ b := fun he => hb (by simp [he])
          simpa [hne] using hy y List.mem_cons_self
        · exact hy c (List.mem_cons_of_mem _ h)

theorem sep_not_mem_split {s c : Bytes} (h : c ∈ split s) : sep ∉ c := not_mem_of_mem_splitOn h

theorem split_append (a b : Bytes) : split (a ++ sep :: b) = split a ++ split b :=
  List.splitOn_append_cons_self a b

theorem split_of_not_mem {s : Bytes} (h : sep ∉ s) : split s = [s] := List.splitOn_eq_singleton h

theorem rooted_append {a : Bytes} (ha : a ≠ []) (b : Bytes) : rooted (a ++ b) = rooted a := by
  cases a with
  | nil => exact absurd rfl ha
  | cons x a => rfl

section Follow

variable {root : Bool} {start : Path} {c : Bytes}

theorem follow_append (a b : Path) : follow root start (a ++ b) = follow root (follow root start a) b :=
  List.foldl_append

theorem follow_singleton : follow root start [c] = push root start c := rfl

theorem push_name (h : c ≠ []) (hdot : c ≠ dot) (hdotdot : c ≠ dotdot) :
    push root start c = start ++ [c] := by
  rw [push, if_neg (by simp [h, hdot]), if_neg hdotdot]

theorem push_skip (h : c = [] ∨ c = dot) : push root start c = start := if_pos h

theorem push_dotdot : push root start dotdot =
    if start = [] then if root then [] else [dotdot]
    else if start.getLast? = some dotdot then start ++ [dotdot] else start.dropLast := by
  rw [push, if_neg (by decide), if_pos rfl]

theorem follow_names {p : Path} (h : ∀ c ∈ p, IsName c) : follow root start p = start ++ p := by
  induction p generalizing start with
  | nil => simp [follow]
  | cons c p ih =>
    obtain ⟨hne, hdot, hdotdot, _⟩ := h c List.mem_cons_self
    rw [follow, List.foldl_cons, push_name hne hdot hdotdot]
    have hrest : follow root (start ++ [c]) p = start ++ [c] ++ p :=
      ih fun c hc => h c (List.mem_cons_of_mem _ hc)
    rw [follow] at hrest
    rw [hrest, List.append_assoc, List.singleton_append]

/-- What is left was there before, and says something. -/
theorem mem_push {d x : Bytes} (h : x ∈ push root start d) :
    x ∈ start ∨ (x = d ∧ d ≠ [] ∧ d ≠ dot ∧ (root = true → d = dotdot → start.getLast? = some dotdot)) := by
  rw [push] at h
  split at h
  · exact .inl h
  · rename_i hd
    rw [not_or] at hd
    split at h
    · split at h
      · split at h
        · cases h
        · exact .inr ⟨by simp_all, hd.1, hd.2, fun hr => by simp_all⟩
      · split at h
        · rename_i hlast
          rcases List.mem_append.1 h with h | h
          · exact .inl h
          · exact .inr ⟨by simp_all, hd.1, hd.2, fun _ _ => hlast⟩
        · exact .inl (List.dropLast_subset _ h)
    · rename_i hne
      rcases List.mem_append.1 h with h | h
      · exact .inl h
      · exact .inr ⟨by simpa using h, hd.1, hd.2, fun _ he => absurd he hne⟩

theorem mem_reduce {cs : Path} (h : c ∈ reduce root cs) : c ∈ cs ∧ c ≠ [] ∧ c ≠ dot := by
  induction cs using List.reverseRecOn with
  | nil => cases h
  | append_singleton cs d ih =>
    rw [reduce, follow_append, follow_singleton] at h
    rcases mem_push h with h | ⟨rfl, hne, hdot, _⟩
    · obtain ⟨hmem, hne⟩ := ih h
      exact ⟨List.mem_append_left _ hmem, hne⟩
    · exact ⟨by simp, hne, hdot⟩

/-- From the root nothing leads up. -/
theorem isName_of_mem_follow {cs : Path} (hstart : ∀ c ∈ start, IsName c) (hcs : ∀ c ∈ cs, sep ∉ c)
    (h : c ∈ follow true start cs) : IsName c := by
  induction cs using List.reverseRecOn generalizing c with
  | nil => exact hstart c h
  | append_singleton cs d ih =>
    have hrest := fun {c : Bytes} => ih (c := c) fun c hc => hcs c (List.mem_append_left _ hc)
    rw [follow_append, follow_singleton] at h
    rcases mem_push h with h | ⟨rfl, hne, hdot, hup⟩
    · exact hrest h
    · refine ⟨hne, hdot, fun he => ?_, hcs c (by simp)⟩
      obtain ⟨l, hl⟩ := List.getLast?_eq_some_iff.1 (hup rfl he)
      have hname : IsName dotdot := hrest (by rw [hl]; simp)
      exact hname.2.2.1 rfl

/-- Components may be reduced before they are followed. -/
theorem follow_reduce (cs : Path) : follow root start (reduce false cs) = follow root start cs := by
  induction cs using List.reverseRecOn with
  | nil => rfl
  | append_singleton cs d ih =>
    rw [reduce, follow_append, follow_append, follow_singleton, follow_singleton, ← ih]
    change follow root start (push false (reduce false cs) d) = push root (follow root start (reduce false cs)) d
    by_cases hskip : d = [] ∨ d = dot
    · rw [push_skip hskip, push_skip hskip]
    · rw [not_or] at hskip
      by_cases hup : d = dotdot
      · subst hup
        rw [push_dotdot]
        split
        · rename_i hnil
          rw [hnil]
          rfl
        · rename_i hne
          split
          · rw [follow_append, follow_singleton]
          · -- the last component is a name, which going up takes off again
            rename_i hlast
            obtain ⟨init, last, hinit⟩ : ∃ init last, reduce false cs = init ++ [last] :=
              ⟨_, _, (List.dropLast_concat_getLast hne).symm⟩
            have hmem : last ∈ reduce false cs := by simp [hinit]
            obtain ⟨_, hnil, hdot⟩ := mem_reduce hmem
            rw [hinit, List.getLast?_concat, Option.some.injEq] at hlast
            rw [hinit, List.dropLast_concat, follow_append, follow_singleton,
              push_name hnil hdot hlast, push_dotdot]
            simp [hlast]
      · rw [push_name hskip.1 hskip.2 hup, follow_append, follow_singleton]

end Follow

/-! ## Names -/

theorem split_intercalate {p : Path} (hp : ∀ c ∈ p, sep ∉ c) (hne : p ≠ []) :
    split ([sep].intercalate p) = p := List.splitOn_intercalate sep hp hne

theorem follow_split_render {root : Bool} {start p : Path} (b : Bool) (hp : ∀ c ∈ p, sep ∉ c) :
    follow root start (split (render b p)) = follow root start p := by
  have hskip : ∀ q, follow root start ([] :: q) = follow root start q := fun q => by
    rw [follow, List.foldl_cons, push_skip (.inl rfl)]
    rfl
  rw [render]
  split
  · have hsplit := split_append [] ([sep].intercalate p)
    rw [List.nil_append] at hsplit
    rw [hsplit, show split [] = [[]] from List.splitOn_nil sep, List.singleton_append, hskip]
    by_cases hne : p = []
    · subst hne
      exact hskip []
    · rw [split_intercalate hp hne]
  · split
    · rename_i hnil
      subst hnil
      rw [split_of_not_mem (by decide), follow_singleton, push_skip (.inr rfl)]
      rfl
    · rename_i hne
      rw [split_intercalate hp hne]

theorem rooted_intercalate {p : Path} (hp : ∀ c ∈ p, c ≠ [] ∧ sep ∉ c) :
    rooted ([sep].intercalate p) = false := by
  cases p with
  | nil => rfl
  | cons c p =>
    obtain ⟨hne, hsep⟩ := hp c List.mem_cons_self
    cases c with
    | nil => exact absurd rfl hne
    | cons b c =>
      rw [List.intercalate_cons_cons_left, rooted, List.head?_cons]
      have hb : b ≠ sep := fun hb => hsep (by simp [hb])
      simp [hb]

theorem rooted_render {p : Path} (b : Bool) (hp : ∀ c ∈ p, c ≠ [] ∧ sep ∉ c) :
    rooted (render b p) = b := by
  rw [render]
  split
  · rename_i hb
    rw [hb]
    rfl
  · rename_i hb
    rw [Bool.not_eq_true] at hb
    rw [hb]
    split
    · rfl
    · exact rooted_intercalate hp

theorem intercalate_ne_nil {p : Path} (hp : ∀ c ∈ p, c ≠ []) (hne : p ≠ []) : [sep].intercalate p ≠ [] := by
  obtain ⟨c, q, rfl⟩ := List.exists_cons_of_ne_nil hne
  obtain ⟨b, c', rfl⟩ := List.exists_cons_of_ne_nil (hp c List.mem_cons_self)
  rw [List.intercalate_cons_cons_left]
  exact List.cons_ne_nil _ _

theorem mem_comps {s c : Bytes} (h : c ∈ comps s) : c ≠ [] ∧ c ≠ dot ∧ sep ∉ c := by
  obtain ⟨hmem, hne, hdot⟩ := mem_reduce h
  exact ⟨hne, hdot, sep_not_mem_split hmem⟩

theorem follow_split_clean {root : Bool} {start : Path} (s : Bytes) :
    follow root start (split (clean s)) = follow root start (comps s) :=
  follow_split_render _ fun _ hc => (mem_comps hc).2.2

theorem rooted_clean (s : Bytes) : rooted (clean s) = rooted s :=
  rooted_render _ fun _ hc => ⟨(mem_comps hc).1, (mem_comps hc).2.2⟩

theorem reduce_comps (s : Bytes) : reduce (rooted s) (comps s) = comps s := by
  rw [comps]
  cases rooted s with
  | false => exact follow_reduce _
  | true =>
    exact follow_names fun c hc => isName_of_mem_follow (fun _ h => absurd h List.not_mem_nil)
      (fun _ => sep_not_mem_split) hc

theorem comps_clean (s : Bytes) : comps (clean s) = comps s := by
  rw [comps, rooted_clean, reduce, follow_split_clean]
  exact reduce_comps s

theorem resolve_clean (cwd : Path) (s : Bytes) : resolve cwd (clean s) = resolve cwd s := by
  rw [resolve, resolve, rooted_clean, follow_split_clean]
  cases hs : rooted s with
  | false =>
    rw [comps, hs]
    exact follow_reduce _
  | true =>
    have hcomps := reduce_comps s
    rw [comps, hs] at hcomps
    rw [comps, hs]
    exact hcomps

theorem isName_of_mem_resolve {cwd : Path} {s c : Bytes} (hcwd : ∀ c ∈ cwd, IsName c)
    (h : c ∈ resolve cwd s) : IsName c := by
  refine isName_of_mem_follow ?_ (fun _ => sep_not_mem_split) h
  split
  · exact nofun
  · exact hcwd

/-! ## Joined names -/

theorem join_eq {a : Bytes} (ha : a ≠ []) (b : Bytes) : join a b = clean (a ++ sep :: b) := if_neg ha

theorem rooted_join {a : Bytes} (ha : a ≠ []) (b : Bytes) : rooted (join a b) = rooted a := by
  rw [join_eq ha, rooted_clean, rooted_append ha]

theorem comps_join {a : Bytes} (ha : a ≠ []) (b : Bytes) :
    comps (join a b) = follow (rooted a) (comps a) (split b) := by
  rw [join_eq ha, comps_clean, comps, rooted_append ha, split_append, reduce, follow_append]
  rfl

theorem clean_ne_nil (s : Bytes) : clean s ≠ [] := by
  rw [clean, render]
  split
  · exact List.cons_ne_nil _ _
  · split
    · exact List.cons_ne_nil _ _
    · rename_i hne
      exact intercalate_ne_nil (fun c hc => (mem_comps hc).1) hne

theorem join_ne_nil {a : Bytes} (ha : a ≠ []) (b : Bytes) : join a b ≠ [] := by
  rw [join_eq ha]
  exact clean_ne_nil _

/-- A relative name is followed from where the first name leads. -/
theorem resolve_join (cwd : Path) (a : Bytes) {b : Bytes} (hb : rooted b = false) :
    resolve cwd (join a b) = follow true (resolve cwd a) (split b) := by
  by_cases ha : a = []
  · subst ha
    have hnil : resolve cwd [] = cwd := rfl
    rw [hnil, join, if_pos rfl]
    split
    · rename_i hb
      subst hb
      rfl
    · rw [resolve_clean, resolve, hb]
      rfl
  · rw [join_eq ha, resolve_clean, resolve, rooted_append ha, split_append, follow_append]
    rfl

theorem abs_eq {cwd : Path} (hcwd : ∀ c ∈ cwd, IsName c) (s : Bytes) :
    abs cwd s = render true (resolve cwd s) := by
  rw [abs]
  split
  · rename_i hs
    rw [clean, comps, resolve, hs]
    rfl
  · rename_i hs
    rw [join_eq (by simp [render]), clean, comps, rooted_append (by simp [render]),
      rooted_render true fun c hc => ⟨(hcwd c hc).1, (hcwd c hc).2.2.2⟩, split_append, reduce,
      follow_append, follow_split_render true fun c hc => (hcwd c hc).2.2.2, follow_names hcwd,
      List.nil_append, resolve, if_neg hs]

/-- Components may be put after a name one by one. -/
theorem foldl_join {a : Bytes} {p : Path} (ha : a ≠ []) (hp : ∀ c ∈ p, IsName c) :
    rooted (p.foldl join a) = rooted a ∧ comps (p.foldl join a) = comps a ++ p := by
  induction p generalizing a with
  | nil => simp
  | cons c p ih =>
    have hc := hp c List.mem_cons_self
    obtain ⟨hroot, hcomps⟩ := ih (join_ne_nil ha c) fun c hc => hp c (List.mem_cons_of_mem _ hc)
    rw [List.foldl_cons, hroot, hcomps, rooted_join ha, comps_join ha, split_of_not_mem hc.2.2.2,
      follow_singleton, push_name hc.1 hc.2.1 hc.2.2.1, List.append_assoc, List.singleton_append]
    exact ⟨rfl, rfl⟩

theorem clean_clean (s : Bytes) : clean (clean s) = clean s := by
  rw [clean, rooted_clean, comps_clean, ← clean]

theorem render_false_ne_nil {p : Path} (hp : ∀ c ∈ p, c ≠ []) : render false p ≠ [] := by
  rw [render, if_neg Bool.false_ne_true]
  split
  · exact List.cons_ne_nil _ _
  · rename_i hne
    exact intercalate_ne_nil hp hne

section Cleaned

variable (a : Bytes) {p : Path}

/-- What is joined with something is clean. -/
theorem clean_join {b : Bytes} (hb : b ≠ []) : clean (join a b) = join a b := by
  rw [join]
  split
  · exact clean_clean _
  · exact clean_clean _

theorem rooted_join_render (hp : ∀ c ∈ p, c ≠ [] ∧ sep ∉ c) : rooted (join a (render false p)) = rooted a := by
  by_cases ha : a = []
  · subst ha
    rw [join, if_pos rfl, if_neg (render_false_ne_nil fun c hc => (hp c hc).1), rooted_clean,
      rooted_render false hp]
    rfl
  · exact rooted_join ha _

theorem comps_join_render (hp : ∀ c ∈ p, c ≠ [] ∧ sep ∉ c) :
    comps (join a (render false p)) = follow (rooted a) (comps a) p := by
  have hsep : ∀ c ∈ p, sep ∉ c := fun c hc => (hp c hc).2
  by_cases ha : a = []
  · subst ha
    rw [join, if_pos rfl, if_neg (render_false_ne_nil fun c hc => (hp c hc).1), comps_clean, comps,
      rooted_render false hp, reduce, follow_split_render false hsep]
    rfl
  · rw [comps_join ha, follow_split_render false hsep]

end Cleaned

/-! ## Containment -/

theorem intercalate_append {p q : Path} (hp : p ≠ []) (hq : q ≠ []) :
    [sep].intercalate (p ++ q) = [sep].intercalate p ++ sep :: [sep].intercalate q := by
  induction p with
  | nil => exact absurd rfl hp
  | cons c p ih =>
    by_cases hnil : p = []
    · subst hnil
      rw [List.singleton_append, List.intercalate_cons_of_ne_nil hq, List.intercalate_singleton,
        List.append_assoc]
      rfl
    · rw [List.cons_append, List.intercalate_cons_of_ne_nil (by simp [hnil]),
        List.intercalate_cons_of_ne_nil hnil, ih hnil]
      simp

theorem intercalate_injective {p q : Path} (hp : ∀ c ∈ p, c ≠ [] ∧ sep ∉ c)
    (hq : ∀ c ∈ q, c ≠ [] ∧ sep ∉ c) (h : [sep].intercalate p = [sep].intercalate q) : p = q := by
  have hnil : ∀ {p : Path}, (∀ c ∈ p, c ≠ [] ∧ sep ∉ c) → [sep].intercalate p = [] → p = [] :=
    fun hp h => by_contra fun hne => intercalate_ne_nil (fun c hc => (hp c hc).1) hne h
  by_cases hp0 : p = []
  · subst hp0
    exact (hnil hq h.symm).symm
  · by_cases hq0 : q = []
    · subst hq0
      exact hnil hp h
    · rw [← split_intercalate (fun c hc => (hp c hc).2) hp0, h,
        split_intercalate (fun c hc => (hq c hc).2) hq0]

theorem render_true_injective {p q : Path} (hp : ∀ c ∈ p, IsName c) (hq : ∀ c ∈ q, IsName c)
    (h : render true p = render true q) : p = q :=
  intercalate_injective (fun c hc => ⟨(hp c hc).1, (hp c hc).2.2.2⟩)
    (fun c hc => ⟨(hq c hc).1, (hq c hc).2.2.2⟩) (List.cons.inj h).2

/-- A rooted name with a slash appended starts the rooted names below it, unless it is the root,
which already ends in one. -/
theorem prefix_render {r q : Path} (hr : ∀ c ∈ r, IsName c) (hq : ∀ c ∈ q, IsName c) :
    render true r ++ [sep] <+: render true q ↔ r ≠ [] ∧ r <+: q ∧ r ≠ q := by
  have hsep : ∀ {p : Path}, (∀ c ∈ p, IsName c) → ∀ c ∈ p, sep ∉ c := fun hp c hc => (hp c hc).2.2.2
  rw [render, if_pos rfl, render, if_pos rfl, List.cons_append, List.cons_prefix_cons]
  constructor
  · rintro ⟨-, t, ht⟩
    rw [List.append_assoc, List.singleton_append] at ht
    have hq0 : q ≠ [] := by
      rintro rfl
      rw [List.intercalate_nil] at ht
      exact absurd (List.append_eq_nil_iff.1 ht).2 (List.cons_ne_nil _ _)
    by_cases hr0 : r = []
    · subst hr0
      rw [List.intercalate_nil, List.nil_append] at ht
      have hroot := rooted_intercalate (p := q) fun c hc => ⟨(hq c hc).1, (hq c hc).2.2.2⟩
      rw [← ht] at hroot
      cases hroot
    · have hsplit := split_append ([sep].intercalate r) t
      rw [ht, split_intercalate (hsep hq) hq0, split_intercalate (hsep hr) hr0] at hsplit
      refine ⟨hr0, ⟨_, hsplit.symm⟩, fun he => ?_⟩
      rw [he] at hsplit
      exact List.splitOn_ne_nil _ _ (List.self_eq_append_right.1 hsplit)
  · rintro ⟨hr0, ⟨t, rfl⟩, hne⟩
    have ht0 : t ≠ [] := fun ht => hne (by rw [ht, List.append_nil])
    refine ⟨rfl, [sep].intercalate t, ?_⟩
    rw [intercalate_append hr0 ht0, List.append_assoc, List.singleton_append]

/-! ## Parts of a name -/

theorem getLast?_split_render {p : Path} (b : Bool) (hp : ∀ c ∈ p, sep ∉ c) (hne : p ≠ []) :
    (split (render b p)).getLast? = p.getLast? := by
  rw [render]
  split
  · have hsplit := split_append [] ([sep].intercalate p)
    rw [List.nil_append] at hsplit
    rw [hsplit, split_intercalate hp hne, List.getLast?_append_of_ne_nil _ hne]
  · rw [split_intercalate hp hne]

theorem render_eq_dot {p : Path} (hp : ∀ c ∈ p, c ≠ dot ∧ sep ∉ c) : render false p = dot ↔ p = [] := by
  constructor
  · intro h
    by_contra hne
    have hlast := getLast?_split_render false (fun c hc => (hp c hc).2) hne
    rw [h, split_of_not_mem (by decide), List.getLast?_singleton] at hlast
    exact (hp dot (List.mem_of_getLast? hlast.symm)).1 rfl
  · rintro rfl
    rfl

theorem dropWhile_of_not_mem {c : Bytes} (hc : sep ∉ c) (s : Bytes) :
    (s ++ c).reverse.dropWhile (· ≠ sep) = s.reverse.dropWhile (· ≠ sep) := by
  rw [List.reverse_append, List.dropWhile_append_of_pos]
  intro b hb
  have hne : b ≠ sep := fun he => hc (he ▸ List.mem_reverse.1 hb)
  simp [hne]

theorem dir_of_not_mem {c : Bytes} (hc : sep ∉ c) : dir c = dot := by
  have h := dropWhile_of_not_mem hc []
  rw [List.nil_append] at h
  rw [dir, h]
  rfl

theorem dir_append {c : Bytes} (s : Bytes) (hc : sep ∉ c) : dir (s ++ sep :: c) = clean (s ++ [sep]) := by
  have h := dropWhile_of_not_mem hc (s ++ [sep])
  rw [List.append_assoc, List.singleton_append] at h
  rw [dir, h, List.reverse_append, List.reverse_singleton, List.singleton_append,
    List.dropWhile_cons_of_neg (by simp), List.reverse_cons, List.reverse_reverse]

theorem dir_render {p : Path} {c : Bytes} (hp : ∀ c ∈ p, IsName c) (hc : IsName c) :
    dir (render false (p ++ [c])) = render false p := by
  rw [render, if_neg Bool.false_ne_true, if_neg (by simp)]
  by_cases h0 : p = []
  · subst h0
    rw [List.nil_append, List.intercalate_singleton, dir_of_not_mem hc.2.2.2]
    rfl
  · have hsep : ∀ c ∈ p, sep ∉ c := fun c hc => (hp c hc).2.2.2
    have hroot : rooted ([sep].intercalate p) = false :=
      rooted_intercalate fun c hc => ⟨(hp c hc).1, hsep c hc⟩
    have hne : [sep].intercalate p ≠ [] := intercalate_ne_nil (fun c hc => (hp c hc).1) h0
    rw [intercalate_append h0 (by simp), List.intercalate_singleton, dir_append _ hc.2.2.2,
      clean, comps, rooted_append hne, hroot, split_append, split_intercalate hsep h0, reduce,
      follow_append, follow_names hp, show split [] = [[]] from List.splitOn_nil sep,
      follow_singleton, push_skip (.inl rfl), List.nil_append]

theorem sep_not_mem_base {s : Bytes} (h : base s ≠ [sep]) : sep ∉ base s := by
  rw [base] at h ⊢
  split
  · decide
  · rename_i hs
    rw [if_neg hs] at h
    split
    · rename_i hnil
      rw [hnil] at h
      exact absurd rfl h
    · rename_i c t _
      obtain ⟨l, x, hsplit⟩ : ∃ l x, split (c :: t) = l ++ [x] :=
        ⟨_, _, (List.dropLast_concat_getLast (List.splitOn_ne_nil _ _)).symm⟩
      rw [hsplit, List.getLast?_concat, Option.getD_some]
      exact sep_not_mem_split (s := c :: t) (by simp [hsplit])

theorem stripCommon_append (b p : Path) : stripCommon b (b ++ p) = ([], p) := by
  induction b with
  | nil => cases p <;> rfl
  | cons c b ih => rw [List.cons_append, stripCommon, if_pos rfl, ih]

theorem rel_eq {b t : Bytes} {p : Path} (hroot : rooted t = rooted b) (hcomps : comps t = comps b ++ p) :
    rel b t = some (render false p) := by
  rw [rel, if_neg (by simp [hroot]), hcomps, stripCommon_append]
  rfl

/-! ## A cleaned name is made of the same text -/

end LexicalPath
