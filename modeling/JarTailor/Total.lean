/-!
# Sizes taken together
-/

namespace JarTailor

def total {α : Type} (size : α → Nat) : List α → Nat
  | [] => 0
  | value :: values => size value + total size values

variable {α β : Type} {size : α → Nat}

@[simp] theorem total_nil : total size [] = 0 := rfl

@[simp] theorem total_cons {value : α} {values : List α} :
    total size (value :: values) = size value + total size values := rfl

@[simp] theorem total_append {front back : List α} :
    total size (front ++ back) = total size front + total size back := by
  induction front with
  | nil => simp
  | cons value front ih =>
      simp only [List.cons_append, total_cons, ih]
      omega

@[simp] theorem total_map {f : β → α} {values : List β} :
    total size (values.map f) = total (fun value => size (f value)) values := by
  induction values with
  | nil => rfl
  | cons value values ih => simp only [List.map_cons, total_cons, ih]

end JarTailor
