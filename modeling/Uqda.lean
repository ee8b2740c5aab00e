import Uqda.Transition.Core
import Uqda.Store.Table
import Uqda.Store.Ledger
import Uqda.Store.Keyed
import Uqda.Heap.Sift
import Uqda.Heap.Bundle
import Uqda.Sorting.Passes
import Uqda.Sorting.Comparators
import Uqda.Bits.Octet
import Uqda.Bits.Lex
import Uqda.Addressing.Core
import Uqda.Addressing.Derivation
import Uqda.Addressing.Lookup
import Uqda.Addressing.RoundTrip
import Uqda.Addressing.Order
import Uqda.KeyStore.Core
import Uqda.KeyStore.Delivery
import Uqda.KeyStore.Usable
import Uqda.KeyStore.Timers
import Uqda.KeyStore.Expiry
import Uqda.KeyStore.Ingress
import Uqda.KeyStore.Reports
import Uqda.Wire.Tlv
import Uqda.Wire.Text
import Uqda.Wire.Query
import Uqda.Wire.Json
import Uqda.Wire.Varint
import Uqda.Handshake.Core
import Uqda.Handshake.Decode
import Uqda.Handshake.Grammar
import Uqda.Handshake.Encode
import Uqda.Handshake.Legacy
import Uqda.Handshake.Authentic
import Uqda.Handshake.Purpose
import Uqda.Handshake.Session
import Uqda.Handshake.Agreement
import Uqda.Handshake.Handler
import Uqda.Handshake.Exchange
import Uqda.Handshake.Completion
import Uqda.Links.Core
import Uqda.Links.Removal
import Uqda.Links.Coherence
import Uqda.Links.Peering
import Uqda.Links.Durable
import Uqda.Links.Readd
import Uqda.Links.Options
import Uqda.Links.Listening
import Uqda.Links.Backoff
import Uqda.Multicast.Core
import Uqda.Multicast.Rules
import Uqda.Multicast.Timer
import Uqda.Multicast.Beacon
import Uqda.Multicast.Codec
import Uqda.Multicast.Announce
import Uqda.Multicast.Tracking
import Uqda.Proto.Core
import Uqda.Proto.Listing
import Uqda.Proto.Requests
import Uqda.Ansible.Genkeys
import Uqda.Admin.Peers
import Uqda.Admin.Handlers
import Uqda.Admin.Requests
import Uqda.Network.Wire
import Uqda.Network.Messages
import Uqda.Network.Filter
import Uqda.Network.Framing
import Uqda.Network.Signing
import Uqda.Network.Queue
import Uqda.Network.QueueRuns
import Uqda.Network.Sending
import Uqda.Graph.Coords
import Uqda.Graph.Forest
import Uqda.Network.Blooms
import Uqda.Network.Delivery
import Uqda.Network.Forwarding
import Uqda.Network.RouterRuns
import Uqda.Network.Authentic
import Uqda.Network.Gossip
import Uqda.Network.Quiescence
