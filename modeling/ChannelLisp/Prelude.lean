/-!
The prelude: four transformers that every session starts with unless it is told not to.
-/

namespace ChannelLisp

def prelude : String :=
  "; Definitions loaded into every top-level environment.

(def when
  (macro (test body)
    (list 'if test body nil)))

(def unless
  (macro (test body)
    (list 'if test nil body)))

(def defn
  (macro (name params body)
    (list 'def name (list 'lambda params body))))

(def defmacro
  (macro (name params body)
    (list 'def name (list 'macro params body))))
"

end ChannelLisp
