import Mathlib.Data.List.Basic

/-!
# Elements of a parsed XML document

* `Element`: an element with its attributes, its text and its children;
* `iter`, `itertext`: the elements under one, itself first, and the text under it, in document order;
* `iter_sublist`: the elements under a part of a document are a part of those of the document.
-/

namespace Xml

/-- An element: `text` stands before its first child and `tail` after its end tag. Its start tag stands at `position`. -/
inductive Element where
  | mk (position : ℕ) (tag : String) (attributes : List (String × String)) (text : String) (children : List Element)
      (tail : String)

namespace Element

def position : Element → ℕ
  | mk position _ _ _ _ _ => position

def tag : Element → String
  | mk _ tag _ _ _ _ => tag

def attributes : Element → List (String × String)
  | mk _ _ attributes _ _ _ => attributes

def text : Element → String
  | mk _ _ _ text _ _ => text

def children : Element → List Element
  | mk _ _ _ _ children _ => children

def tail : Element → String
  | mk _ _ _ _ _ tail => tail

/-- `element.get(name)`. -/
def get (e : Element) (name : String) : Option String := e.attributes.lookup name

mutual

/-- `element.iter()`. -/
def iter : Element → List Element
  | mk position tag attributes text children tail =>
    mk position tag attributes text children tail :: iterAll children

def iterAll : List Element → List Element
  | [] => []
  | e :: es => iter e ++ iterAll es

end

mutual

/-- `"".join(element.itertext())`. -/
def itertext : Element → List Char
  | mk _ _ _ text children _ => text.toList ++ itertextAll children

/-- The text of a list of siblings, the text after each of them included. -/
def itertextAll : List Element → List Char
  | [] => []
  | e :: es => itertext e ++ e.tail.toList ++ itertextAll es

end

/-! ## Document order -/

theorem iter_eq (e : Element) : e.iter = e :: iterAll e.children := by
  cases e with
  | mk position tag attributes text children tail => rfl

theorem itertext_eq (e : Element) : e.itertext = e.text.toList ++ itertextAll e.children := by
  cases e with
  | mk position tag attributes text children tail => rfl

theorem iterAll_append (es es' : List Element) : iterAll (es ++ es') = iterAll es ++ iterAll es' := by
  induction es with
  | nil => rfl
  | cons e es ih =>
    show iter e ++ iterAll (es ++ es') = iter e ++ iterAll es ++ iterAll es'
    rw [ih, List.append_assoc]

/-- Siblings stand in the document in their order. -/
theorem sublist_iterAll (es : List Element) : es.Sublist (iterAll es) := by
  induction es with
  | nil => exact .refl []
  | cons e es ih =>
    show (e :: es).Sublist (iter e ++ iterAll es)
    rw [iter_eq, List.cons_append]
    exact (ih.trans (List.sublist_append_right ..)).cons_cons e

mutual

/-- **The elements under an element of a document** stand in it in their order. -/
theorem iter_sublist {e : Element} : ∀ root : Element, e ∈ root.iter → e.iter.Sublist root.iter
  | mk position tag attributes text children tail, h => by
    rw [iter_eq] at h
    rcases List.mem_cons.1 h with rfl | h
    · exact .refl _
    · show e.iter.Sublist (mk position tag attributes text children tail :: iterAll children)
      exact (iter_sublist_all children h).cons _

theorem iter_sublist_all {e : Element} : ∀ es : List Element, e ∈ iterAll es → e.iter.Sublist (iterAll es)
  | [], h => by cases h
  | root :: es, h => by
    rcases List.mem_append.1 h with h | h
    · exact (iter_sublist root h).trans (List.sublist_append_left ..)
    · exact (iter_sublist_all es h).trans (List.sublist_append_right ..)

end

end Element

end Xml
