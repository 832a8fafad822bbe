import Malkuth.Text

/-! What an absolute URL asks its server for: its path and query, as they are written. A target
that is put behind a base is asked for only if the base is an origin. -/
namespace Url

/-- What ends an authority. -/
def delimiter (c : Char) : Bool := c = '/' || c = '?' || c = '#'

def httpScheme (scheme : List Char) : Bool :=
  ["http","https"].contains (Malkuth.Text.toAsciiLowercase (String.ofList scheme))

def authority (rest : List Char) : List Char := rest.takeWhile fun c => !delimiter c

/-- A path that is not there is the root. -/
def rooted (cs : List Char) : List Char := if cs.head? = some '/' then cs else '/' :: cs

def pathAndQuery (rest : List Char) : List Char :=
  rooted ((rest.dropWhile fun c => !delimiter c).takeWhile fun c => c ≠ '#')

def target (url : List Char) : Option (List Char) :=
  match Malkuth.Text.splitOnce ':' url with
  | some (scheme,'/' :: '/' :: rest) => if httpScheme scheme ∧ authority rest ≠ [] then some (pathAndQuery rest) else none
  | _ => none

/-- Scheme and authority, and nothing behind them. -/
def Origin (url : List Char) : Prop :=
  ∃ scheme host, url = scheme ++ [':','/','/'] ++ host ∧ httpScheme scheme = true ∧ host ≠ [] ∧
    ∀ c ∈ host, delimiter c = false

/-- A query without a path is one of the root. -/
def asked : List Char → List Char
  | '?' :: query => '/' :: '?' :: query
  | cs => cs

section Parts

theorem scheme_clean (http : httpScheme scheme = true) : ∀ c ∈ scheme, delimiter c = false ∧ c ≠ ':' := by
  have letters : ∃ word ∈ [['h','t','t','p'],['h','t','t','p','s']], scheme.map
      (fun c => if 'A' ≤ c ∧ c ≤ 'Z' then Char.ofNat (c.toNat + 32) else c) = word := by
    simp only [httpScheme,List.contains_iff_mem,List.mem_cons,List.not_mem_nil,or_false,Malkuth.Text.toAsciiLowercase,
      String.toList_ofList] at http
    rcases http with same | same <;> exact ⟨_,by simp,String.ofList_injective same⟩
  obtain ⟨word,known,lower⟩ := letters
  intro c member
  have inside := List.mem_map_of_mem (f := fun c => if 'A' ≤ c ∧ c ≤ 'Z' then Char.ofNat (c.toNat + 32) else c) member
  rw [lower] at inside
  by_contra not_
  have special : c = '/' ∨ c = '?' ∨ c = '#' ∨ c = ':' := by
    by_contra other
    simp only [not_or] at other
    exact not_ ⟨by simp [delimiter,other],other.2.2.2⟩
  simp only [List.mem_cons,List.not_mem_nil,or_false] at known
  rcases special with rfl | rfl | rfl | rfl <;> rcases known with rfl | rfl <;> revert inside <;> decide

theorem splitOnce_some (cut : Malkuth.Text.splitOnce sep cs = some (front,back)) : cs = front ++ sep :: back := by
  induction cs generalizing front with
  | nil => simp [Malkuth.Text.splitOnce] at cut
  | cons c cs ih =>
    rw [Malkuth.Text.splitOnce] at cut
    split at cut
    next here =>
      obtain ⟨rfl,rfl⟩ := Prod.mk.inj (Option.some.inj cut)
      rw [here]
      rfl
    next =>
      obtain ⟨⟨left,right⟩,later,same⟩ := Option.map_eq_some_iff.mp cut
      obtain ⟨rfl,rfl⟩ := Prod.mk.inj same
      rw [ih later]
      rfl

theorem target_eq_some : target url = some asks ↔ ∃ scheme rest, url = scheme ++ [':','/','/'] ++ rest ∧
    httpScheme scheme = true ∧ authority rest ≠ [] ∧ pathAndQuery rest = asks := by
  constructor
  · intro is
    unfold target at is
    split at is
    next scheme rest cut =>
      obtain ⟨⟨http,host⟩,same⟩ := Option.ite_none_right_eq_some.mp is
      exact ⟨scheme,rest,by simp [splitOnce_some cut],http,host,Option.some.inj same⟩
    · contradiction
  · rintro ⟨scheme,rest,rfl,http,host,rfl⟩
    have clean : ':' ∉ scheme := fun member => (scheme_clean http ':' member).2 rfl
    have cut := Malkuth.Text.splitOnce_append ':' scheme ('/' :: '/' :: rest) clean
    have same : scheme ++ [':','/','/'] ++ rest = scheme ++ ':' :: '/' :: '/' :: rest := by simp
    rw [target,same,cut]
    exact if_pos ⟨http,host⟩

theorem rooted_head (cs : List Char) : (rooted cs).head? = some '/' := by
  unfold rooted
  split
  next here => exact here
  next => rfl

theorem rooted_clean (clean : '#' ∉ cs) : '#' ∉ rooted cs := by
  unfold rooted
  split <;> simp [clean]

theorem target_clean (rest : List Char) : '#' ∉ pathAndQuery rest := by
  refine rooted_clean fun member => ?_
  simpa using List.mem_takeWhile_imp member

theorem pathAndQuery_length (host : authority rest ≠ []) : (pathAndQuery rest).length ≤ rest.length := by
  have whole := congrArg List.length (List.takeWhile_append_dropWhile (p := fun c => !delimiter c) (l := rest))
  have some_ : 0 < (authority rest).length := List.length_pos_of_ne_nil host
  have cut := (List.takeWhile_prefix (fun c => decide (c ≠ '#')) (l := rest.dropWhile fun c => !delimiter c)).length_le
  rw [List.length_append] at whole
  change (authority rest).length + _ = _ at whole
  unfold pathAndQuery rooted
  split
  · omega
  · rw [List.length_cons]
    omega

/-- Up to a place where the walk stops, what comes later does not matter. -/
theorem takeWhile_append_stops {p : Char → Bool} (member : c ∈ xs) (stops : p c = false) (ys : List Char) :
    (xs ++ ys).takeWhile p = xs.takeWhile p ∧ (xs ++ ys).dropWhile p = xs.dropWhile p ++ ys ∧ c ∈ xs.dropWhile p := by
  induction xs with
  | nil => simp at member
  | cons x xs ih =>
    by_cases here : p x = true
    · have later : c ∈ xs := (List.mem_cons.mp member).resolve_left (by rintro rfl; simp [here] at stops)
      simpa [List.takeWhile_cons,List.dropWhile_cons,here] using ih later
    · simpa [List.takeWhile_cons,List.dropWhile_cons,here] using member

theorem walk_all {xs ys : List Char} {p : Char → Bool} (all : ∀ c ∈ xs, p c = true) (stops : ∀ c, ys.head? = some c → p c = false) :
    (xs ++ ys).takeWhile p = xs ∧ (xs ++ ys).dropWhile p = ys := by
  have none_ : ys.takeWhile p = [] ∧ ys.dropWhile p = ys := by
    cases ys with
    | nil => simp
    | cons y ys => simp [stops y rfl]
  rw [List.takeWhile_append_of_pos all,List.dropWhile_append_of_pos all,none_.1,none_.2,List.append_nil]
  exact ⟨rfl,rfl⟩

end Parts

/-- A base with a fragment asks for what it asks for alone. -/
theorem target_fragment (base : List Char) (fragment : '#' ∈ base) (later : List Char) :
    target (base ++ later) = target base := by
  have known (scheme a : List Char) (http : httpScheme scheme = true) (same : base = scheme ++ [':','/','/'] ++ a) : '#' ∈ a := by
    rw [same,List.append_assoc,List.mem_append] at fragment
    rcases fragment with inside | inside
    · have clean := (scheme_clean http _ inside).1
      simp [delimiter] at clean
    · simpa using inside
  have parts (a : List Char) (inside : '#' ∈ a) :
      authority (a ++ later) = authority a ∧ pathAndQuery (a ++ later) = pathAndQuery a := by
    obtain ⟨host,rest,cut⟩ := takeWhile_append_stops (p := fun c => !delimiter c) inside (by simp [delimiter]) later
    refine ⟨host,?_⟩
    rw [pathAndQuery,pathAndQuery,rest,(takeWhile_append_stops (p := fun c => decide (c ≠ '#')) cut (by simp) later).1]
  refine Option.ext fun asks => ?_
  rw [target_eq_some,target_eq_some]
  constructor
  · rintro ⟨scheme,rest,same,http,host,asks_⟩
    rcases List.append_eq_append_iff.mp same with ⟨c,whole,_⟩ | ⟨a,front,rfl⟩
    · -- the whole base would be part of a scheme
      have inside : '#' ∈ scheme ++ [':','/','/'] := by rw [whole]; exact List.mem_append_left _ fragment
      rcases List.mem_append.mp inside with inside | inside
      · have clean := (scheme_clean http _ inside).1
        simp [delimiter] at clean
      · simp at inside
    · obtain ⟨host',asks'⟩ := parts a (known scheme a http front)
      exact ⟨scheme,a,front,http,host' ▸ host,asks'.symm.trans asks_⟩
  · rintro ⟨scheme,a,same,http,host,asks_⟩
    obtain ⟨host',asks'⟩ := parts a (known scheme a http same)
    exact ⟨scheme,a ++ later,by rw [same,List.append_assoc],http,host'.symm ▸ host,asks'.trans asks_⟩

theorem asked_starts (rooted : (asked cs).head? = some '/') : ∃ c rest, cs = c :: rest ∧ (c = '/' ∨ c = '?') := by
  unfold asked at rooted
  split at rooted
  next query => exact ⟨_,_,rfl,.inr rfl⟩
  next =>
    obtain ⟨rest,rfl⟩ := List.head?_eq_some_iff.mp rooted
    exact ⟨_,_,rfl,.inl rfl⟩

theorem asked_rooted (starts : c = '/' ∨ c = '?') : asked (c :: rest) = rooted (c :: rest) := by
  rcases starts with rfl | rfl <;> simp [asked,rooted]

/-- What is put behind an origin is asked for, whole. -/
theorem target_origin (origin : Origin base) (starts : c = '/' ∨ c = '?') (clean : '#' ∉ c :: rest) :
    target (base ++ c :: rest) = some (asked (c :: rest)) := by
  obtain ⟨scheme,host,rfl,http,some_,plain⟩ := origin
  have inside : ∀ d ∈ host, (!delimiter d) = true := fun d member => by simp [plain d member]
  have stops : ∀ d, (c :: rest).head? = some d → (!delimiter d) = false := by
    rintro _ ⟨rfl⟩
    rcases starts with rfl | rfl <;> rfl
  obtain ⟨front,back⟩ := walk_all inside stops
  refine target_eq_some.mpr ⟨scheme,host ++ c :: rest,List.append_assoc ..,http,?_,?_⟩
  · rw [authority,front]
    exact some_
  · rw [pathAndQuery,back,asked_rooted starts,List.takeWhile_eq_self_iff.mpr]
    intro d member
    simpa using fun hash : d = '#' => clean (hash ▸ member)

/-- A base that ends within the beginning of a URL leaves too much of it to the target. -/
theorem not_inside (front : scheme ++ [':','/','/'] = base ++ d) (back : c :: query = d ++ rest) (starts : c = '/' ∨ c = '?')
    (http : httpScheme scheme = true) (host : authority rest ≠ []) (is : pathAndQuery rest = asked (c :: query)) :
    base.getLast? = some '/' := by
  rcases List.append_eq_append_iff.mp front with ⟨e,rfl,ends⟩ | ⟨e,rfl,rfl⟩
  · rcases e with _ | ⟨x,_ | ⟨y,_ | ⟨z,e⟩⟩⟩
    · obtain rfl : d = [':','/','/'] := ends.symm
      obtain ⟨rfl,_⟩ := List.cons.inj back
      simp at starts
    · obtain ⟨_,rfl⟩ := List.cons.inj ends
      obtain ⟨rfl,rfl⟩ := List.cons.inj back
      have long := pathAndQuery_length host
      rw [is] at long
      change rest.length + 2 ≤ rest.length at long
      omega
    · simp only [List.cons_append,List.nil_append,List.cons.injEq] at ends
      obtain ⟨_,rfl,_⟩ := ends
      simp
    · simp only [List.cons_append,List.cons.injEq] at ends
      obtain ⟨_,_,rfl,ends⟩ := ends
      obtain ⟨rfl,_⟩ := List.append_eq_nil_iff.mp ends.symm
      simp
  · rcases e with _ | ⟨x,e⟩
    · obtain ⟨rfl,_⟩ := List.cons.inj back
      simp at starts
    · obtain ⟨rfl,_⟩ := List.cons.inj back
      have clean := (scheme_clean http c (by simp)).1
      rcases starts with rfl | rfl <;> simp [delimiter] at clean

/-- What is left of a base behind its authority would come before the target. -/
theorem nothing_before (some_ : r ≠ []) (starts : c = '/' ∨ c = '?') (same : rooted (r ++ c :: query) = rooted (c :: query)) :
    r = ['/'] := by
  obtain ⟨x,r,rfl⟩ := List.exists_cons_of_ne_nil some_
  have lengths := congrArg List.length same
  by_cases slash : x = '/'
  · subst slash
    rcases starts with rfl | rfl
    · simp [rooted] at lengths
      omega
    · simp [rooted] at lengths
      rw [lengths]
  · rcases starts with rfl | rfl
    all_goals
      simp [rooted,slash] at lengths
      omega

/-- Nothing but an origin passes a target on, when there is no fragment and no slash at the end. -/
theorem origin_of_target (trimmed : base.getLast? ≠ some '/') (whole : '#' ∉ base)
    (asks : target (base ++ later) = some (asked later)) :
    Origin base ∧ (∃ c rest, later = c :: rest ∧ (c = '/' ∨ c = '?')) ∧ '#' ∉ later := by
  obtain ⟨scheme,rest,same,http,host,is⟩ := target_eq_some.mp asks
  obtain ⟨c,query,rfl,starts⟩ := asked_starts (by rw [← is]; exact rooted_head _)
  have clean : '#' ∉ c :: query := by
    have none_ := target_clean rest
    rw [is,asked_rooted starts] at none_
    unfold rooted at none_
    split at none_
    · exact none_
    · exact fun member => none_ (List.mem_cons_of_mem _ member)
  refine ⟨?_,⟨c,query,rfl,starts⟩,clean⟩
  rcases List.append_eq_append_iff.mp same with ⟨d,front,back⟩ | ⟨a,rfl,rfl⟩
  · exact absurd (not_inside front back starts http host is) trimmed
  refine ⟨scheme,a,rfl,http,?_,?_⟩
  · rintro rfl
    simp at trimmed
  · by_contra some_
    obtain ⟨d,member,ends⟩ : ∃ d ∈ a, delimiter d = true := by simpa using some_
    obtain ⟨_,walk,inside⟩ := takeWhile_append_stops (p := fun c => !delimiter c) member (by simp [ends]) (c :: query)
    have cut : a.takeWhile (fun c => !delimiter c) ++ a.dropWhile (fun c => !delimiter c) = a := List.takeWhile_append_dropWhile
    have short : '#' ∉ a.dropWhile (fun c => !delimiter c) ++ c :: query := by
      intro member
      rcases List.mem_append.mp member with early | late
      · exact whole (List.mem_append_right _ ((List.dropWhile_suffix _).subset early))
      · exact clean late
    rw [pathAndQuery,walk,List.takeWhile_eq_self_iff.mpr fun d member => by simpa using fun hash : d = '#' => short (hash ▸ member),
      asked_rooted starts] at is
    have slash := nothing_before (List.ne_nil_of_mem inside) starts is
    rw [slash] at cut
    rw [← cut,← List.append_assoc,List.getLast?_append] at trimmed
    simp at trimmed

/-- What is asked for is the target that was put behind the base exactly when the base is an
origin, or hides the target with a fragment and asks for the same by itself. -/
theorem target_append_iff (trimmed : base.getLast? ≠ some '/') (later : List Char) :
    target (base ++ later) = some (asked later) ↔
      Origin base ∧ (∃ c rest, later = c :: rest ∧ (c = '/' ∨ c = '?')) ∧ '#' ∉ later ∨
      '#' ∈ base ∧ target base = some (asked later) := by
  constructor
  · intro asks
    by_cases fragment : '#' ∈ base
    · exact .inr ⟨fragment,target_fragment base fragment later ▸ asks⟩
    · exact .inl (origin_of_target trimmed fragment asks)
  · rintro (⟨origin,⟨c,rest,rfl,starts⟩,clean⟩ | ⟨fragment,asks⟩)
    · exact target_origin origin starts clean
    · rw [target_fragment base fragment]
      exact asks

end Url
