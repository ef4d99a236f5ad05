import Mathlib.Data.List.Induction
import TektonPipeline.Library.Matching

/-! Slash-separated paths as Go's `path/filepath` cleans and joins them, and where a path leads
to: so many directories up, and then down through the named ones. -/

namespace TektonPipeline.Paths
open List

def dot : List Char := ['.']

def dotdot : List Char := ['.', '.']

/-- The elements of a path, without empty ones and dots. -/
def elements (p : List Char) : List (List Char) :=
  (Text.splitOn '/' p).filter fun e => decide (e ≠ [] ∧ e ≠ dot)

def rooted (p : List Char) : Bool := p.head? == some '/'

structure Place where
  up : Nat := 0
  names : List (List Char) := []
  deriving DecidableEq

/-- One element further. From the root there is no way up. -/
def Place.enter (fromRoot : Bool) (q : Place) (e : List Char) : Place :=
  if e = dotdot then
    if q.names ≠ [] then { q with names := q.names.dropLast }
    else if fromRoot then q
    else { q with up := q.up + 1 }
  else { q with names := q.names ++ [e] }

def resolve (fromRoot : Bool) (es : List (List Char)) : Place := es.foldl (Place.enter fromRoot) {}

/-- Where a path leads, read from the directory it starts at. -/
def place (p : List Char) : Place := resolve (rooted p) (elements p)

/-- The way a path leads from anywhere: so far up, then down. -/
def route (p : List Char) : Place := resolve false (elements p)

def Place.elements (q : Place) : List (List Char) := List.replicate q.up dotdot ++ q.names

def Place.text (fromRoot : Bool) (q : Place) : List Char :=
  let body := List.intercalate ['/'] q.elements
  if fromRoot then '/' :: body else if body = [] then dot else body

/-- `filepath.Clean` -/
def clean (p : List Char) : List Char := (place p).text (rooted p)

/-- `filepath.Join` of two paths of which none is empty. -/
def join (p p' : List Char) : List Char := clean (p ++ '/' :: p')

def Place.Below (q r : Place) : Prop := r.up = q.up ∧ q.names <+: r.names

instance (q r : Place) : Decidable (q.Below r) := inferInstanceAs (Decidable (_ ∧ _))

/-! ## Elements -/

structure Plain (e : List Char) : Prop where
  ne_nil : e ≠ []
  ne_dot : e ≠ dot
  ne_dotdot : e ≠ dotdot
  no_slash : '/' ∉ e

instance (e : List Char) : Decidable (Plain e) :=
  decidable_of_iff (e ≠ [] ∧ e ≠ dot ∧ e ≠ dotdot ∧ '/' ∉ e)
    ⟨fun h => ⟨h.1, h.2.1, h.2.2.1, h.2.2.2⟩,
      fun h => ⟨h.ne_nil, h.ne_dot, h.ne_dotdot, h.no_slash⟩⟩

theorem mem_elements {p e : List Char} (h : e ∈ elements p) : e ≠ [] ∧ e ≠ dot ∧ '/' ∉ e := by
  obtain ⟨hmem, hkept⟩ := mem_filter.mp h
  obtain ⟨hne, hdot⟩ := of_decide_eq_true hkept
  exact ⟨hne, hdot, fun hsep => (Text.mem_of_mem_splitOn _ hmem _ hsep).2 rfl⟩

theorem elements_append (p p' : List Char) :
    elements (p ++ '/' :: p') = elements p ++ elements p' := by
  rw [elements, Text.splitOn_append_sep, filter_append]
  rfl

theorem elements_of_not_mem {e : List Char} (h : '/' ∉ e) :
    elements e = if e ≠ [] ∧ e ≠ dot then [e] else [] := by
  rw [elements, Text.splitOn_of_not_mem h]
  by_cases he : e ≠ [] ∧ e ≠ dot <;> simp [he]

theorem elements_intercalate {es : List (List Char)}
    (h : ∀ e ∈ es, e ≠ [] ∧ e ≠ dot ∧ '/' ∉ e) : elements (List.intercalate ['/'] es) = es := by
  induction es with
  | nil => rfl
  | cons e es ih =>
    obtain ⟨hne, hdot, hslash⟩ := h e mem_cons_self
    have hes := fun e' he' => h e' (mem_cons_of_mem e he')
    have hself : elements e = [e] := by rw [elements_of_not_mem hslash, if_pos ⟨hne, hdot⟩]
    cases es with
    | nil => simpa [List.intercalate] using hself
    | cons e' es =>
      have hcons : List.intercalate ['/'] (e :: e' :: es) =
          e ++ '/' :: List.intercalate ['/'] (e' :: es) := by simp [List.intercalate]
      rw [hcons, elements_append, hself, ih hes]
      rfl

/-! ## Places -/

section
variable {fromRoot : Bool} {es : List (List Char)}

theorem resolve_append (es es' : List (List Char)) :
    resolve fromRoot (es ++ es') = es'.foldl (Place.enter fromRoot) (resolve fromRoot es) :=
  foldl_append

theorem resolve_concat (es : List (List Char)) (e : List Char) :
    resolve fromRoot (es ++ [e]) = (resolve fromRoot es).enter fromRoot e := resolve_append es [e]

/-- The names are elements of the path that lead down. -/
theorem mem_names_resolve {e : List Char} (h : e ∈ (resolve fromRoot es).names) :
    e ∈ es ∧ e ≠ dotdot := by
  induction es using List.reverseRecOn generalizing e with
  | nil => cases h
  | append_singleton es x ih =>
    rw [resolve_concat, Place.enter] at h
    have hold : e ∈ (resolve fromRoot es).names → e ∈ es ++ [x] ∧ e ≠ dotdot := fun hmem =>
      ⟨mem_append_left _ (ih hmem).1, (ih hmem).2⟩
    split at h
    · split at h
      · exact hold (dropLast_subset _ h)
      · split at h
        · exact hold h
        · exact hold h
    · rename_i hx
      rcases mem_append.mp h with h | h
      · exact hold h
      · obtain rfl := mem_singleton.mp h
        exact ⟨mem_append_right _ mem_cons_self, hx⟩

theorem up_resolve_root (es : List (List Char)) : (resolve true es).up = 0 := by
  induction es using List.reverseRecOn with
  | nil => rfl
  | append_singleton es x ih =>
    rw [resolve_concat, Place.enter]
    split
    · split
      · exact ih
      · exact ih
    · exact ih

theorem resolve_names {q : Place} (es : List (List Char)) (h : ∀ e ∈ es, e ≠ dotdot) :
    es.foldl (Place.enter fromRoot) q = { q with names := q.names ++ es } := by
  induction es generalizing q with
  | nil => simp
  | cons e es ih =>
    rw [foldl_cons, Place.enter, if_neg (h e mem_cons_self),
      ih fun e' he' => h e' (mem_cons_of_mem e he')]
    simp

theorem resolve_replicate (n : Nat) : resolve false (List.replicate n dotdot) = { up := n } := by
  induction n with
  | zero => rfl
  | succ n ih =>
    rw [replicate_succ', resolve_concat, ih]
    simp [Place.enter]

/-- A place is found again from its elements. -/
theorem resolve_elements {q : Place} (hnames : ∀ e ∈ q.names, e ≠ dotdot)
    (hup : fromRoot = true → q.up = 0) : resolve fromRoot q.elements = q := by
  obtain ⟨up, names⟩ := q
  rw [Place.elements, resolve_append, resolve_names names hnames]
  cases fromRoot with
  | false => simp [resolve_replicate]
  | true =>
    obtain rfl : up = 0 := hup rfl
    simp [resolve]

theorem enter_name (q : Place) {e : List Char} (he : e ≠ dotdot) :
    q.enter fromRoot e = { q with names := q.names ++ [e] } := if_neg he

theorem enter_dotdot_of_names (u : Nat) (ms : List (List Char)) {ns : List (List Char)}
    (hns : ns ≠ []) : Place.enter fromRoot ⟨u, ms ++ ns⟩ dotdot = ⟨u, ms ++ ns.dropLast⟩ := by
  simp [Place.enter, hns, dropLast_append_of_ne_nil hns]

/-- What a list of elements does from some place on: it goes as far up as it would from
nowhere, and then down. -/
theorem foldl_enter (q : Place) (es : List (List Char)) : es.foldl (Place.enter fromRoot) q =
      { up := if fromRoot then q.up else q.up + ((resolve false es).up - q.names.length)
        names := q.names.take (q.names.length - (resolve false es).up) ++
          (resolve false es).names } := by
  induction es using List.reverseRecOn with
  | nil => simp [resolve]
  | append_singleton es x ih =>
    rw [foldl_append, foldl_cons, foldl_nil, ih, resolve_concat]
    obtain ⟨k, ns⟩ := resolve false es
    by_cases hx : x = dotdot
    · subst hx
      by_cases hns : ns = []
      · subst hns
        rw [append_nil]
        by_cases hk : k < q.names.length
        · have hne : q.names.take (q.names.length - k) ≠ [] := by
            rw [← length_pos_iff, length_take]
            omega
          have hlast : (q.names.take (q.names.length - k)).dropLast =
              q.names.take (q.names.length - (k + 1)) := by
            rw [dropLast_eq_take, take_take, length_take]
            congr 1
            omega
          have hup : k + 1 - q.names.length = k - q.names.length := by omega
          simp [Place.enter, hne, hlast, hup]
        · have htake : q.names.length - k = 0 := by omega
          have htake' : q.names.length - (k + 1) = 0 := by omega
          cases fromRoot with
          | true => simp [Place.enter, htake, htake']
          | false =>
            simp only [Place.enter, htake, take_zero]
            simp
            omega
      · have hr : Place.enter false ⟨k, ns⟩ dotdot = ⟨k, ns.dropLast⟩ := by
          simpa using enter_dotdot_of_names k [] hns
        rw [enter_dotdot_of_names _ _ hns, hr]
    · rw [enter_name _ hx, enter_name _ hx, append_assoc]

end

/-! ## Cleaned and joined paths -/

section
variable {p : List Char}

theorem mem_names_place {e : List Char} (h : e ∈ (place p).names) : e ∈ elements p ∧ Plain e := by
  obtain ⟨hmem, hup⟩ := mem_names_resolve h
  obtain ⟨hne, hdot, hslash⟩ := mem_elements hmem
  exact ⟨hmem, hne, hdot, hup, hslash⟩

theorem up_place_rooted (h : rooted p = true) : (place p).up = 0 := by
  rw [place, h]
  exact up_resolve_root _

theorem mem_elements_place {e : List Char} (h : e ∈ (place p).elements) :
    e ≠ [] ∧ e ≠ dot ∧ '/' ∉ e := by
  rcases mem_append.mp h with h | h
  · rw [(mem_replicate.mp h).2]
    decide
  · have hp := (mem_names_place h).2
    exact ⟨hp.ne_nil, hp.ne_dot, hp.no_slash⟩

theorem rooted_append (hp : p ≠ []) (p' : List Char) : rooted (p ++ p') = rooted p := by
  obtain ⟨c, p, rfl⟩ := exists_cons_of_ne_nil hp
  rfl

theorem rooted_of_not_mem (h : '/' ∉ p) : rooted p = false := by
  cases p with
  | nil => rfl
  | cons c p =>
    have hc : c ≠ '/' := fun hc => h (hc ▸ mem_cons_self)
    simp [rooted, hc]

theorem rooted_intercalate {es : List (List Char)} (h : ∀ e ∈ es, e ≠ [] ∧ '/' ∉ e) :
    rooted (List.intercalate ['/'] es) = false := by
  cases es with
  | nil => rfl
  | cons e es =>
    obtain ⟨hne, hslash⟩ := h e mem_cons_self
    have hstart : ∃ rest, List.intercalate ['/'] (e :: es) = e ++ rest := by
      cases es with
      | nil => exact ⟨[], by simp [List.intercalate]⟩
      | cons e' es => exact ⟨_, by simp [List.intercalate]; rfl⟩
    obtain ⟨rest, hrest⟩ := hstart
    rw [hrest, rooted_append hne]
    exact rooted_of_not_mem hslash

/-- Cleaning keeps whether a path is rooted, and the elements that count. -/
theorem rooted_clean (p : List Char) : rooted (clean p) = rooted p := by
  rw [clean, Place.text]
  cases hr : rooted p with
  | true => simp [rooted]
  | false =>
    simp only [Bool.false_eq_true, if_false]
    split
    · rfl
    · exact rooted_intercalate fun e he => ⟨(mem_elements_place he).1, (mem_elements_place he).2.2⟩

theorem elements_clean (p : List Char) : elements (clean p) = (place p).elements := by
  have hbody := elements_intercalate fun e he => mem_elements_place (p := p) (e := e) he
  rw [clean, Place.text]
  split
  · have := elements_append [] (List.intercalate ['/'] (place p).elements)
    rw [nil_append] at this
    rw [this, hbody]
    rfl
  · split
    · rename_i hnil
      rw [hnil] at hbody
      rw [← hbody]
      rfl
    · exact hbody

theorem place_clean (p : List Char) : place (clean p) = place p := by
  rw [place, rooted_clean, elements_clean]
  exact resolve_elements (fun e he => (mem_names_place he).2.ne_dotdot) up_place_rooted

/-- Where a second path leads from the end of a first one: what it climbs is taken from the
names of the first, and its own names follow. -/
def onwards (p p' : List Char) : Place where
  up := if rooted p then 0 else (place p).up + ((route p').up - (place p).names.length)
  names := (place p).names.take ((place p).names.length - (route p').up) ++ (route p').names

theorem place_append (hp : p ≠ []) (p' : List Char) : place (p ++ '/' :: p') = onwards p p' := by
  rw [place, rooted_append hp, elements_append, resolve_append, foldl_enter]
  cases hr : rooted p with
  | true => simp [onwards, place, route, hr, up_resolve_root]
  | false => simp [onwards, place, route, hr]

theorem join_eq (hp : p ≠ []) (p' : List Char) : join p p' = (onwards p p').text (rooted p) := by
  rw [join, clean, place_append hp, rooted_append hp]

end

/-! ## Rewritten paths -/

structure Piecewise (σ : List Char → List Char) : Prop where
  nil : σ [] = []
  dot : σ dot = dot
  dotdot : σ dotdot = dotdot
  append : ∀ a b, σ (a ++ '/' :: b) = σ a ++ '/' :: σ b

/-- The way down through names once each of them is rewritten. -/
def rewritten (σ : List Char → List Char) (names : List (List Char)) : Place :=
  resolve false (names.flatMap fun e => elements (σ e))

def Kept (σ : List Char → List Char) (p : List Char) : Prop :=
  ∀ e ∈ elements p, e ≠ dotdot → Plain (σ e)

instance (σ : List Char → List Char) (p : List Char) : Decidable (Kept σ p) :=
  inferInstanceAs (Decidable (∀ e ∈ elements p, _))

section
variable {σ : List Char → List Char} {p s t : List Char}

theorem induction_on_pieces {motive : List Char → Prop} (piece : ∀ w, '/' ∉ w → motive w)
    (append : ∀ w p, '/' ∉ w → motive p → motive (w ++ '/' :: p)) (p : List Char) : motive p := by
  induction hn : p.length using Nat.strong_induction_on generalizing p with
  | _ n ih =>
    by_cases hmem : '/' ∈ p
    · obtain ⟨w, rest, rfl, hw⟩ := eq_append_cons_of_mem hmem
      refine append w rest hw (ih rest.length ?_ rest rfl)
      rw [← hn]
      simp
      omega
    · exact piece p hmem

theorem place_eq_route (p : List Char) :
    place p = ⟨if rooted p then 0 else (route p).up, (route p).names⟩ := by
  have h : (elements p).foldl (Place.enter (rooted p)) {} = _ := foldl_enter {} (elements p)
  simpa [place, route, resolve] using h

theorem Piecewise.elements_flatMap (hσ : Piecewise σ) (p : List Char) :
    elements (σ p) = (elements p).flatMap fun e => elements (σ e) := by
  have hpiece : ∀ w, '/' ∉ w → elements (σ w) = (elements w).flatMap fun e => elements (σ e) := by
    intro w hw
    rw [elements_of_not_mem hw]
    by_cases hne : w ≠ [] ∧ w ≠ Paths.dot
    · rw [if_pos hne, flatMap_singleton]
    · rw [if_neg hne, flatMap_nil]
      rw [not_and_or, not_not, not_not] at hne
      rcases hne with rfl | rfl
      · rw [hσ.nil]
        rfl
      · rw [hσ.dot]
        rfl
  induction p using induction_on_pieces with
  | piece w hw => exact hpiece w hw
  | append w p hw ih =>
    rw [hσ.append, elements_append, elements_append, flatMap_append, hpiece w hw, ih]

/-- A cleaned path that is rewritten climbs as before, and then as its names say. -/
theorem Piecewise.route_clean (hσ : Piecewise σ) (p : List Char) : route (σ (clean p)) =
    ⟨(place p).up + (rewritten σ (place p).names).up, (rewritten σ (place p).names).names⟩ := by
  have hup : (List.replicate (place p).up Paths.dotdot).flatMap (fun e => elements (σ e)) =
      List.replicate (place p).up Paths.dotdot := by
    have hself : elements (σ Paths.dotdot) = [Paths.dotdot] := by
      rw [hσ.dotdot]
      decide
    induction (place p).up with
    | zero => rfl
    | succ n ih => rw [replicate_succ, flatMap_cons, ih, hself, singleton_append]
  rw [route, hσ.elements_flatMap, elements_clean, Place.elements, flatMap_append, hup,
    resolve_append, foldl_enter, resolve_replicate]
  simp [rewritten]

theorem kept_append {w : List Char} : Kept σ (w ++ '/' :: p) ↔ Kept σ w ∧ Kept σ p := by
  simp only [Kept, elements_append, forall_mem_append]

/-- What becomes of the text between two slashes. -/
theorem Piecewise.piece_cases (hσ : Piecewise σ) {w : List Char} (hw : '/' ∉ w) (hk : Kept σ w) :
    (elements w = [] ∧ σ w = w) ∨ (elements w = [w] ∧ w ≠ [] ∧ elements (σ w) = [σ w] ∧
      σ w ≠ [] ∧ '/' ∉ σ w) := by
  rw [elements_of_not_mem hw]
  by_cases hne : w ≠ [] ∧ w ≠ Paths.dot
  · refine .inr ⟨if_pos hne, hne.1, ?_⟩
    by_cases hup : w = Paths.dotdot
    · rw [hup, hσ.dotdot]
      decide
    · have hplain : Plain (σ w) := by
        refine hk w ?_ hup
        rw [elements_of_not_mem hw, if_pos hne]
        exact mem_singleton_self w
      refine ⟨?_, hplain.ne_nil, hplain.no_slash⟩
      rw [elements_of_not_mem hplain.no_slash, if_pos ⟨hplain.ne_nil, hplain.ne_dot⟩]
  · refine .inl ⟨if_neg hne, ?_⟩
    rw [not_and_or, not_not, not_not] at hne
    rcases hne with rfl | rfl
    · exact hσ.nil
    · exact hσ.dot

theorem Piecewise.elements_eq (hσ : Piecewise σ) (hk : Kept σ p) :
    elements (σ p) = (elements p).map σ := by
  have hpiece : ∀ w, '/' ∉ w → Kept σ w → elements (σ w) = (elements w).map σ := by
    intro w hw hk
    rcases hσ.piece_cases hw hk with ⟨hnone, hsame⟩ | ⟨hone, -, hone', -, -⟩
    · rw [hsame, hnone, map_nil]
    · rw [hone', hone, map_singleton]
  induction p using induction_on_pieces with
  | piece w hw => exact hpiece w hw hk
  | append w p hw ih =>
    obtain ⟨hkw, hkp⟩ := kept_append.mp hk
    rw [hσ.append, elements_append, elements_append, map_append, hpiece w hw hkw, ih hkp]

theorem Piecewise.rooted_eq (hσ : Piecewise σ) (hk : Kept σ p) : rooted (σ p) = rooted p := by
  by_cases hmem : '/' ∈ p
  · obtain ⟨w, rest, rfl, hw⟩ := eq_append_cons_of_mem hmem
    rw [hσ.append]
    rcases hσ.piece_cases hw (kept_append.mp hk).1 with ⟨-, hsame⟩ | ⟨-, hne, -, hne', hslash⟩
    · rw [hsame]
      cases w with
      | nil => rfl
      | cons c w => rfl
    · rw [rooted_append hne, rooted_append hne', rooted_of_not_mem hw, rooted_of_not_mem hslash]
  · rw [rooted_of_not_mem hmem]
    rcases hσ.piece_cases hmem hk with ⟨-, hsame⟩ | ⟨-, -, -, -, hslash⟩
    · rw [hsame, rooted_of_not_mem hmem]
    · exact rooted_of_not_mem hslash

theorem resolve_map {fromRoot : Bool} {es : List (List Char)} (hup : σ dotdot = dotdot)
    (hdown : ∀ e ∈ es, e ≠ dotdot → σ e ≠ dotdot) : resolve fromRoot (es.map σ) =
      ⟨(resolve fromRoot es).up, (resolve fromRoot es).names.map σ⟩ := by
  induction es using List.reverseRecOn with
  | nil => rfl
  | append_singleton es x ih =>
    rw [map_append, map_singleton, resolve_concat, resolve_concat,
      ih fun e he => hdown e (mem_append_left _ he)]
    by_cases hx : x = dotdot
    · rw [hx, hup]
      by_cases hns : (resolve fromRoot es).names = []
      · cases fromRoot <;> simp [Place.enter, hns]
      · simp [Place.enter, hns, map_dropLast]
    · have hx' := hdown x (mem_append_right _ mem_cons_self) hx
      rw [enter_name _ hx, enter_name _ hx']
      simp

theorem Piecewise.place_eq (hσ : Piecewise σ) (hk : Kept σ p) :
    place (σ p) = ⟨(place p).up, (place p).names.map σ⟩ := by
  rw [place, hσ.rooted_eq hk, hσ.elements_eq hk]
  exact resolve_map hσ.dotdot fun e he hne => (hk e he hne).ne_dotdot

theorem Kept.join (hks : Kept σ s) (hkt : Kept σ t) : Kept σ (join s t) := by
  intro e he hne
  rw [Paths.join, elements_clean] at he
  rcases mem_append.mp he with he | he
  · exact absurd (mem_replicate.mp he).2 hne
  · exact kept_append.mpr ⟨hks, hkt⟩ e (mem_names_place he).1 hne

/-- A joined path stays below the first one exactly if the second one enters again, under the
same names, what it has climbed out of. -/
theorem Piecewise.below_join_iff (hσ : Piecewise σ) (hs : s ≠ []) (hks : Kept σ s)
    (hkt : Kept σ t) : (place (σ s)).Below (place (σ (join s t))) ↔
      (rooted s = true ∨ (route t).up ≤ (place s).names.length) ∧
        ((place s).names.drop ((place s).names.length - (route t).up)).map σ <+:
          (route t).names.map σ := by
  have hnames : (place s).names.map σ =
      ((place s).names.take ((place s).names.length - (route t).up)).map σ ++
        ((place s).names.drop ((place s).names.length - (route t).up)).map σ := by
    rw [← map_append, take_append_drop]
  rw [hσ.place_eq hks, hσ.place_eq (hks.join hkt), Paths.join, place_clean, place_append hs,
    Place.Below, onwards]
  dsimp only
  rw [hnames, map_append, prefix_append_right_inj]
  refine and_congr_left fun _ => ?_
  cases hr : rooted s with
  | true => simp [up_place_rooted hr]
  | false =>
    simp
    omega

end

end TektonPipeline.Paths
