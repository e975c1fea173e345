import Jarsmith.ClassGraph.Basic
import Jarsmith.Log.Traced

/-!
# Which classes are reached

From the entry points, edges are followed as long as they lead to a class of the graph. An entry
point counts as reached even if no archive defines it. The classes of the graph that are not reached
are the removable ones.
-/

namespace Jarsmith.ClassGraph

/-- The classes of the graph that are named by the class `name` and are not in `visited`, each
once. -/
def fresh (g : ClassGraph) (visited : List Text) (name : Text) : List Text :=
  match g.find? name with
  | none => []
  | some d => Text.unique (d.references.filter fun r => r ∉ visited && g.defines r)

/-- How many classes of the graph are not in `visited`. -/
def unvisited (g : ClassGraph) (visited : List Text) : Nat := g.names.countP (· ∉ visited)

theorem mem_fresh {g : ClassGraph} {visited : List Text} {name r : Text}
    (h : r ∈ g.fresh visited name) : r ∉ visited ∧ r ∈ g.names := by
  unfold fresh at h
  split at h
  · simp at h
  · simp only [Text.mem_unique, List.mem_filter, Bool.and_eq_true, decide_eq_true_eq] at h
    obtain ⟨-, h₁, h₂⟩ := h
    obtain ⟨d, hd, hn⟩ := List.any_eq_true.1 h₂
    exact ⟨h₁, List.mem_map.2 ⟨d, hd, by simpa using hn⟩⟩

theorem countP_lt_of_imp {α : Type} {p q : α → Bool} {x : α} :
    ∀ {xs : List α}, (∀ y ∈ xs, p y → q y) → x ∈ xs → p x = false → q x = true →
      xs.countP p < xs.countP q
  | [], _, hx, _, _ => by simp at hx
  | y :: ys, hpq, hx, hp, hq => by
    have hle : ys.countP p ≤ ys.countP q :=
      List.countP_mono_left fun z hz => hpq z (List.mem_cons_of_mem _ hz)
    rcases List.mem_cons.1 hx with rfl | hx
    · simp only [List.countP_cons, hp, hq]
      simp
      omega
    · have ih := countP_lt_of_imp (fun z hz => hpq z (List.mem_cons_of_mem _ hz)) hx hp hq
      have hy := hpq y List.mem_cons_self
      simp only [List.countP_cons]
      by_cases h : p y = true
      · simp [h, hy h, ih]
      · simp only [h]
        simp
        omega

/-- Visiting classes of the graph one after another leaves at least as many fewer to visit. -/
theorem unvisited_append_le {g : ClassGraph} {visited new : List Text} (hnew : new.Nodup)
    (h : ∀ r ∈ new, r ∉ visited ∧ r ∈ g.names) :
    g.unvisited (visited ++ new) + new.length ≤ g.unvisited visited := by
  induction new generalizing visited with
  | nil => simp
  | cons r new ih =>
    obtain ⟨hr, hnew⟩ := List.nodup_cons.1 hnew
    obtain ⟨h₁, h₂⟩ := h r List.mem_cons_self
    have hlt : g.unvisited (visited ++ [r]) < g.unvisited visited :=
      countP_lt_of_imp (by simp +contextual) h₂ (by simp) (by simp [h₁])
    have hnext : ∀ q ∈ new, q ∉ visited ++ [r] ∧ q ∈ g.names := by
      intro q hq
      obtain ⟨hq₁, hq₂⟩ := h q (List.mem_cons_of_mem _ hq)
      have hne : q ≠ r := fun e => hr (e ▸ hq)
      exact ⟨by simp [hq₁, hne], hq₂⟩
    have hrest := ih hnew hnext
    simp only [List.append_assoc, List.singleton_append] at hrest
    simp only [List.length_cons]
    omega

theorem nodup_fresh (g : ClassGraph) (visited : List Text) (name : Text) :
    (g.fresh visited name).Nodup := by
  unfold fresh
  split
  · exact List.nodup_nil
  · exact Text.nodup_unique _

/-- Adds to `visited` everything that is reached from the classes in `queue`, which are in `visited`
already. -/
def reachFrom (g : ClassGraph) (visited : List Text) : (queue : List Text) → List Text
  | [] => visited
  | name :: queue =>
    let new := g.fresh visited name
    reachFrom g (visited ++ new) (queue ++ new)
termination_by queue => g.unvisited visited + queue.length
decreasing_by
  have := unvisited_append_le (nodup_fresh g visited name) fun _ => mem_fresh
  simp only [List.length_append, List.length_cons]
  omega

/-- The classes reached from the entry points, those included. -/
def reachable (g : ClassGraph) (entryPoints : List Text) : List Text :=
  let start := Text.unique entryPoints
  g.reachFrom start start

/-- What is reached, what can be removed, and which entry points no archive defines. -/
structure Reachability where
  reachable : List Text
  removable : List Text
  unresolved : List Text
  deriving DecidableEq, Repr

/-- The class can be removed. -/
def Reachability.isRemovable (r : Reachability) (name : Text) : Bool := r.removable.contains name

/-- What is reached from entry points. -/
def reachability (g : ClassGraph) (entryPoints : List Text) : Reachability :=
  let reached := g.reachable entryPoints
  { reachable := reached
    removable := g.names.filter (· ∉ reached)
    unresolved := entryPoints.filter fun name => !g.defines name }

/-- The events of the computation of what is reached. -/
def reachabilityEvents (g : ClassGraph) (entryPoints : List Text) (r : Reachability) :
    List Log.Event :=
  (r.unresolved.map fun name =>
    Log.event .warning .analyze
      (("入口点 " : Text) ++ name ++ (" 未在 classpath 中找到" : Text))) ++
  [Log.event .info .analyze (("可达性分析完成: 入口点 " : Text) ++
    Text.ofNat entryPoints.length ++ (" 个, 可达 " : Text) ++
    Text.ofNat (g.size - r.removable.length) ++ (" 个类, 可移除 " : Text) ++
    Text.ofNat r.removable.length ++ (" 个类" : Text))]

end Jarsmith.ClassGraph
