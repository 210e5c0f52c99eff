import ComponentTags.Text.Basic

/-!
# Directives

The shapes of the text that stands in a compiled template for a tag: the class that is asked for
a component, the marks that begin and end components and slots, and the calls that the runtime
answers.
-/

namespace ComponentTags.Directive

/-- The class of components that have a view and no class of their own. -/
def anonymousComponent : Text :=
  "Illuminate\\View\\AnonymousComponent".toList

/-- The function that makes a bound attribute safe to print. -/
def sanitizer : Text :=
  "\\Illuminate\\View\\Compilers\\BladeCompiler::sanitizeComponentAttribute".toList

/-- The function behind `@class`. -/
def cssClasses : Text :=
  "\\Illuminate\\Support\\Arr::toCssClasses".toList

/-- The function behind `@style`. -/
def cssStyles : Text :=
  "\\Illuminate\\Support\\Arr::toCssStyles".toList

/-- The mark at the end of a component. -/
def componentEnd : Text :=
  "@endComponentClass##END-COMPONENT-CLASS##".toList

/-- The end of a component that has a closing tag. -/
def closing : Text :=
  ' ' :: componentEnd

/-- The end of a component that closes itself. -/
def selfClosing : Text :=
  '\n' :: componentEnd

def slotClosing : Text :=
  " @endslot".toList

/-- Stands for the style sheets of live components. -/
def liveStyles : Text :=
  "@livewireStyles".toList

/-- Stands for the scripts of live components. -/
def liveScripts : Text :=
  "@livewireScripts".toList

/-- The hint of the views that mails are made of. -/
def mailMark : Text :=
  ['m', 'a', 'i', 'l', ':', ':']

/-- The expression that finds a mail view at run time. -/
def mailExpression (view : Text) : Text :=
  "$__env->getContainer()->make(Illuminate\\View\\Factory::class)->make('".toList ++ view ++
    "')".toList

/-- The expression that makes a bound attribute safe. -/
def sanitizerCall (value : Text) : Text :=
  sanitizer ++ ['('] ++ value ++ [')']

/-- Makes a component of a class. -/
def component (className parameters : Text) : Text :=
  "<?php ".toList ++ className ++ "::resolve([".toList ++ parameters ++ "]); ?>".toList

/-- Makes a component of a class and prints it at once. -/
def printed (className parameters : Text) : Text :=
  "<?php echo ".toList ++ className ++ "::resolve([".toList ++ parameters ++
    "])->render(); ?>".toList

/-- Begins a slot; the name is an expression. -/
def slot (name attributes : Text) : Text :=
  " @slot(".toList ++ name ++ ", null, [".toList ++ attributes ++ "]) ".toList

end ComponentTags.Directive
