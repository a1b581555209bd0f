import BrianScheme.Object
import BrianScheme.HeapList
import BrianScheme.StackSet
import BrianScheme.Gc.Heap
import BrianScheme.Gc.Collect
import BrianScheme.Gc.Mark
import BrianScheme.Gc.Collection
import BrianScheme.Gc.Scan
import BrianScheme.Gc.Machine
import BrianScheme.Gc.Invariant
import BrianScheme.Gc.Safety
import BrianScheme.Gc.Validate
import BrianScheme.Vm.State
import BrianScheme.Vm.Execute
import BrianScheme.Vm.Roots
import BrianScheme.Vm.Continuation
import BrianScheme.Vm.Stack
import BrianScheme.Vm.ControlStack
import BrianScheme.Vm.Splat
import BrianScheme.Vm.LiveStack
import BrianScheme.Vm.Args
import BrianScheme.Vm.Collector
import BrianScheme.Vm.Sound
